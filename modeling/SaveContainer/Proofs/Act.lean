import SaveContainer.Act

/-!
How acts end and what they leave behind. A sequence goes on exactly when its first part has a
result, and whatever is put around an act keeps all that its trace holds.
-/

namespace SaveContainer

theorem exists_of_map_ok {ε α β : Type} {r : Except ε α} {f : α → β} {b : β}
    (h : r.map f = .ok b) : ∃ a, r = .ok a ∧ f a = b := by
  cases r with
  | error e => cases h
  | ok a => exact ⟨a, rfl, Except.ok.inj h⟩

namespace Trace

variable (t u : Trace)

@[simp] theorem calls_append : calls (t ++ u) = calls t ++ calls u :=
  List.filterMap_append

@[simp] theorem written_append : written (t ++ u) = written t ++ written u :=
  List.flatMap_append

@[simp] theorem events_append : events (t ++ u) = events t ++ events u :=
  List.filterMap_append

@[simp] theorem unwritten_append : unwritten (t ++ u) = unwritten t ++ unwritten u :=
  List.filter_append ..

@[simp] theorem calls_nil : calls [] = [] := rfl
@[simp] theorem written_nil : written [] = [] := rfl
@[simp] theorem events_nil : events [] = [] := rfl
@[simp] theorem unwritten_nil : unwritten [] = [] := rfl

@[simp] theorem calls_cons_call (c : Call) : calls (.call c :: t) = c :: calls t := rfl
@[simp] theorem calls_cons_event (e : Event) : calls (.event e :: t) = calls t := rfl
@[simp] theorem calls_cons_wrote (b : List UInt8) : calls (.wrote b :: t) = calls t := rfl

@[simp] theorem written_cons_call (c : Call) : written (.call c :: t) = written t := rfl
@[simp] theorem written_cons_event (e : Event) : written (.event e :: t) = written t := rfl
@[simp] theorem written_cons_wrote (b : List UInt8) :
    written (.wrote b :: t) = b ++ written t := rfl

@[simp] theorem events_cons_call (c : Call) : events (.call c :: t) = events t := rfl
@[simp] theorem events_cons_event (e : Event) : events (.event e :: t) = e :: events t := rfl
@[simp] theorem events_cons_wrote (b : List UInt8) : events (.wrote b :: t) = events t := rfl

@[simp] theorem unwritten_cons_event (e : Event) :
    unwritten (.event e :: t) = .event e :: unwritten t := rfl
@[simp] theorem unwritten_cons_wrote (b : List UInt8) :
    unwritten (.wrote b :: t) = unwritten t := rfl

section Pieces

variable (pieces : List (List UInt8))

@[simp] theorem calls_pieces : calls (pieces.map .wrote) = [] := by
  induction pieces with
  | nil => rfl
  | cons b pieces ih => rw [List.map_cons, calls_cons_wrote, ih]

@[simp] theorem events_pieces : events (pieces.map .wrote) = [] := by
  induction pieces with
  | nil => rfl
  | cons b pieces ih => rw [List.map_cons, events_cons_wrote, ih]

@[simp] theorem written_pieces : written (pieces.map .wrote) = pieces.flatten := by
  induction pieces with
  | nil => rfl
  | cons b pieces ih => rw [List.map_cons, written_cons_wrote, ih, List.flatten_cons]

end Pieces

@[simp] theorem events_unwritten : events (unwritten t) = events t := by
  induction t with
  | nil => rfl
  | cons a t ih =>
      cases a with
      | call c => cases c <;> exact ih
      | event e => rw [unwritten_cons_event, events_cons_event, events_cons_event, ih]
      | wrote b => exact ih

end Trace

namespace Act

variable {σ τ α β : Type}

@[simp] theorem pure_run (a : α) (s : σ) : (pure a : Act σ α) s = ⟨.ok a, s, []⟩ := rfl

@[simp] theorem fail_run (e : Fault) (s : σ) : (fail e : Act σ α) s = ⟨.error e, s, []⟩ := rfl

@[simp] theorem ofExcept_run (r : Except Fault α) (s : σ) : ofExcept r s = ⟨r, s, []⟩ := rfl

@[simp] theorem note_run (a : Action) (s : σ) : note a s = ⟨.ok (), s, [a]⟩ := rfl

@[simp] theorem notes_run (t : Trace) (s : σ) : notes t s = ⟨.ok (), s, t⟩ := rfl

@[simp] theorem log_run (e : Event) (s : σ) : log e s = ⟨.ok (), s, [.event e]⟩ := rfl

@[simp] theorem notes_bind (t : Trace) (f : Unit → Act σ β) (s : σ) :
    (notes t >>= f) s = ⟨(f () s).result, (f () s).state, t ++ (f () s).trace⟩ := rfl

@[simp] theorem note_bind (a : Action) (f : Unit → Act σ β) (s : σ) :
    (note a >>= f) s = ⟨(f () s).result, (f () s).state, a :: (f () s).trace⟩ := rfl

@[simp] theorem log_bind (e : Event) (f : Unit → Act σ β) (s : σ) :
    (log e >>= f) s = ⟨(f () s).result, (f () s).state, .event e :: (f () s).trace⟩ := rfl

@[simp] theorem get_bind (f : σ → Act σ β) (s : σ) : (get >>= f) s = f s s := rfl

section Sequence

variable {m : Act σ α} {f : α → Act σ β} {s : σ}

theorem bind_of_ok {a : α} (h : (m s).result = .ok a) :
    (m >>= f) s = ⟨(f a (m s).state).result, (f a (m s).state).state,
      (m s).trace ++ (f a (m s).state).trace⟩ := by
  cases hm : m s with
  | mk r s' t =>
      rw [hm] at h
      cases h
      simp only [bind, hm]

theorem bind_of_error {e : Fault} (h : (m s).result = .error e) :
    (m >>= f) s = ⟨.error e, (m s).state, (m s).trace⟩ := by
  cases hm : m s with
  | mk r s' t =>
      rw [hm] at h
      cases h
      simp only [bind, hm]

/-- A sequence has a result only if both parts have one. -/
theorem exists_of_bind_ok {b : β} (h : ((m >>= f) s).result = .ok b) :
    ∃ a, (m s).result = .ok a ∧ (f a (m s).state).result = .ok b := by
  cases hm : (m s).result with
  | error e =>
      rw [bind_of_error hm] at h
      cases h
  | ok a =>
      rw [bind_of_ok hm] at h
      exact ⟨a, rfl, h⟩

theorem map_run (m : Act σ α) (f : α → β) (s : σ) :
    (do let a ← m; return f a) s = ⟨(m s).result.map f, (m s).state, (m s).trace⟩ := by
  cases hm : (m s).result with
  | error e => rw [bind_of_error hm]; rfl
  | ok a => rw [bind_of_ok hm]; simp [Except.map]

theorem map_state (m : Act σ α) (f : α → β) (s : σ) :
    ((do let a ← m; return f a) s).state = (m s).state := by
  rw [map_run]

theorem bind_assoc {γ : Type} (m : Act σ α) (f : α → Act σ β) (f' : β → Act σ γ) :
    (m >>= f) >>= f' = m >>= fun a => f a >>= f' := by
  funext s
  cases hm : (m s).result with
  | error e =>
      have first := bind_of_error (f := f) hm
      rw [bind_of_error hm, bind_of_error (congrArg Outcome.result first), first]
  | ok a =>
      have first := bind_of_ok (f := f) hm
      rw [bind_of_ok hm]
      cases hf : (f a (m s).state).result with
      | error e =>
          have both := (congrArg Outcome.result first).trans hf
          rw [bind_of_error hf, bind_of_error both, first]
      | ok b =>
          have both := (congrArg Outcome.result first).trans hf
          rw [bind_of_ok hf, bind_of_ok both, first, List.append_assoc]

end Sequence

@[simp] theorem closing_run (t : Trace) (m : Act σ α) (s : σ) :
    closing t m s = ⟨(m s).result, (m s).state, (m s).trace ++ t⟩ := rfl

@[simp] theorem mapFault_run (f : Fault → Fault) (m : Act σ α) (s : σ) :
    mapFault f m s = ⟨(m s).result.mapError f, (m s).state, (m s).trace⟩ := rfl

@[simp] theorem onFirst_run (m : Act σ α) (s : σ × τ) :
    m.onFirst s = ⟨(m s.1).result, ((m s.1).state, s.2), (m s.1).trace⟩ := rfl

@[simp] theorem onSecond_run (m : Act τ α) (s : σ × τ) :
    m.onSecond s = ⟨(m s.2).result, (s.1, (m s.2).state), (m s.2).trace⟩ := rfl

end Act
end SaveContainer
