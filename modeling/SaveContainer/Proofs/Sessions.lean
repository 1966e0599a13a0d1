import SaveContainer.Proofs.SharedTables
import SaveContainer.Session

/-!
What one step of a session looks at: the handles that it works on, the disk, and the tables that
those handles share. What it leaves of the handles and of the tables.
-/

namespace SaveContainer

namespace Held

@[simp] theorem place?_save (s : Save) : (save s).place? = s.place? := by
  cases s <;> rfl

@[simp] theorem place?_directory (d : OpenDirectory) : (directory d).place? = d.place? := by
  cases d <;> rfl

theorem eq_save {h : Held} {s : Save} (eq : h.save? = some s) : h = save s := by
  cases h with
  | save s' => exact congrArg save (Option.some.inj eq)
  | opener _ | directory _ | list _ => cases eq

theorem eq_directory {h : Held} {d : OpenDirectory} (eq : h.directory? = some d) :
    h = directory d := by
  cases h with
  | directory d' => exact congrArg directory (Option.some.inj eq)
  | opener _ | save _ | list _ => cases eq

end Held

namespace Session

namespace Step

/-- The names of the handles that a step works on. -/
def operands : Step → List String
  | .change _ | .makeOpener _ _ | .openExtracted _ _ | .openPacked _ _ | .openBytes _ _ => []
  | .resolve on _ | .openSave on _ _ | .kind on | .text on | .print on | .openRoot on _
  | .openDirectory on _ _ | .duplicate on _ | .ino on | .list on _ _ | .subdirectory on _ _
  | .printBelow on _ | .names on | .size on | .entry on _ | .release on => [on]
  | .same on other => [on, other]

/-- The same step on handles of other names. -/
def mapOperands (f : String → String) : Step → Step
  | .resolve on path => .resolve (f on) path
  | .openSave on path under => .openSave (f on) path under
  | .kind on => .kind (f on)
  | .text on => .text (f on)
  | .print on => .print (f on)
  | .openRoot on under => .openRoot (f on) under
  | .openDirectory on i under => .openDirectory (f on) i under
  | .duplicate on under => .duplicate (f on) under
  | .ino on => .ino (f on)
  | .list on k under => .list (f on) k under
  | .subdirectory on name under => .subdirectory (f on) name under
  | .printBelow on depth => .printBelow (f on) depth
  | .names on => .names (f on)
  | .size on => .size (f on)
  | .entry on index => .entry (f on) index
  | .same on other => .same (f on) (f other)
  | .release on => .release (f on)
  | st => st

theorem mapOperands_id (st : Step) : st.mapOperands id = st := by
  cases st <;> rfl

/-- The name of the handle that a step releases. -/
def released? : Step → Option String
  | .release on => some on
  | _ => none

end Step

namespace Move

/-- The name under which a handle is kept. -/
def under : Move → Option String
  | .keep name _ => name
  | _ => .none

/-- The place of the table that the handle that was made shares with others. -/
def place? : Move → Option Nat
  | .keep _ h => h.place?
  | _ => .none

variable {move : Move} {held held' : Std.TreeMap String Held} {y : String}

theorem apply_congr (same : held'[y]? = held[y]?) :
    (move.apply held')[y]? = (move.apply held)[y]? := by
  cases move with
  | none => exact same
  | keep under h =>
      cases under with
      | none => exact same
      | some name => simp only [Move.apply, Std.TreeMap.getElem?_insert, same]
  | release name => simp only [Move.apply, Std.TreeMap.getElem?_erase, same]

theorem exists_of_under (kept : move.under = some y) : ∃ h, move = .keep (some y) h := by
  cases move with
  | keep under h => exact ⟨h, congrArg (keep · h) kept⟩
  | none | release name => cases kept

theorem getElem?_apply_keep (h : Held) : ((keep (some y) h).apply held)[y]? = some h :=
  Std.TreeMap.getElem?_insert_self

theorem getElem?_apply_release {name : String} (ne : y ≠ name) :
    ((release name).apply held)[y]? = held[y]? := by
  have ne : compare name y ≠ .eq := fun eq => ne (Std.LawfulEqCmp.eq_of_compare eq).symm
  rw [Move.apply, Std.TreeMap.getElem?_erase, if_neg ne]

/-- Nothing else that is held is new. -/
theorem getElem?_of_apply {h : Held} (other : move.under ≠ some y)
    (found : (move.apply held)[y]? = some h) : held[y]? = some h := by
  cases move with
  | none => exact found
  | keep under made =>
      cases under with
      | none => exact found
      | some name =>
          have ne : compare name y ≠ .eq := fun eq =>
            other (congrArg some (Std.LawfulEqCmp.eq_of_compare eq))
          rwa [Move.apply, Std.TreeMap.getElem?_insert, if_neg ne] at found
  | release name =>
      rw [Move.apply, Std.TreeMap.getElem?_erase] at found
      split at found
      · cases found
      · exact found

end Move

section Look

variable {held held' : String → Option Held} {st : Step}

/-- A step looks at the handles that it works on only. -/
theorem act_mapOperands {f : String → String} (same : ∀ y ∈ st.operands, held' (f y) = held y)
    (fixed : ∀ y, st.released? = some y → f y = y) :
    act held' (st.mapOperands f) = act held st := by
  cases st <;> simp only [Step.operands, List.forall_mem_cons] at same
  case release on =>
    have fixed := fixed on rfl
    rw [fixed] at same
    simp only [Step.mapOperands, act, fixed, same]
  all_goals
    simp only [Step.mapOperands, act, withHeld, same]

theorem act_congr (same : ∀ y ∈ st.operands, held' y = held y) : act held' st = act held st := by
  have mapped := act_mapOperands (f := id) same fun _ _ => rfl
  rwa [Step.mapOperands_id] at mapped

end Look

section Tables

open World

variable {P : Nat → Prop} {held : String → Option Held}

/-- What a step comes to, when the worlds agree on the tables at `P` before it: they agree on the
table of what it made, too. -/
def Seen (P : Nat → Prop) (m : Act World (Answer × Move)) : Prop :=
  m.Alike (AgreeOn P) (AgreeOnNew P fun made => made.2.place?)

theorem seen_answer (a : Answer) : Seen P (answer a) :=
  Act.alike_pure fun _ _ agree => agreeOnNew_of_known nofun _ _ agree

theorem seen_printed {m : Act (World × Sink) Unit} (blind : m.Blind (Act.Beside (AgreeOn P))) :
    Seen P (printed m) :=
  blind.buffered.bind fun _ => seen_answer _

theorem alike_keepSave (a : Answer) (under : Option String) (s : Save) :
    (pure (a, .keep under (.save s)) : Act World (Answer × Move)).Alike
      (AgreeOnNew P Save.place? s) (AgreeOnNew P fun made => made.2.place?) :=
  Act.alike_pure fun _ _ agree => by
    simpa only [AgreeOnNew, Move.place?, Held.place?_save] using agree

theorem alike_keepDirectory (under : Option String) (d : OpenDirectory) :
    (keepDirectory under d).Alike (AgreeOnNew P OpenDirectory.place? d)
      (AgreeOnNew P fun made => made.2.place?) :=
  Act.alike_pure fun _ _ agree => by
    simpa only [AgreeOnNew, Move.place?, Held.place?_directory] using agree

theorem seen_change (c : Change) : Seen P (act held (.change c)) := by
  intro w w' agree
  have same : w'.disk.apply c = w.disk.apply c := by rw [agree.disk]
  simp only [act, Act.get_bind, same]
  cases w.disk.apply c with
  | none => exact seen_answer .changeFailed w w' agree
  | some disk =>
      have changed : AgreeOn P { w with disk } { w' with disk } := ⟨rfl, agree.size, agree.table⟩
      refine ⟨rfl, rfl, changed, fun a ended => ?_⟩
      cases ended
      exact agreeOnNew_of_known nofun _ _ changed

section Operand

variable {on : String}

theorem seen_withHeld {α : Type} {as? : Held → Option α} {f : α → Act World (Answer × Move)}
    (each : ∀ h a, held on = some h → as? h = some a → Seen P (f a)) :
    Seen P (withHeld held as? on f) := by
  unfold withHeld
  split
  · next a found =>
      obtain ⟨h, found, eq⟩ := Option.bind_eq_some_iff.mp found
      exact each h a found eq
  · exact seen_answer _

variable (known : ∀ h, held on = some h → ∀ place, h.place? = some place → P place)
include known

theorem seen_withSave {f : Save → Act World (Answer × Move)}
    (each : ∀ s, (∀ place, s.place? = some place → P place) → Seen P (f s)) :
    Seen P (withHeld held Held.save? on f) :=
  seen_withHeld fun h s found eq =>
    each s (by simpa only [Held.eq_save eq, Held.place?_save] using known h found)

theorem seen_withDirectory {f : OpenDirectory → Act World (Answer × Move)}
    (each : ∀ d, (∀ place, d.place? = some place → P place) → Seen P (f d)) :
    Seen P (withHeld held Held.directory? on f) :=
  seen_withHeld fun h d found eq =>
    each d (by simpa only [Held.eq_directory eq, Held.place?_directory] using known h found)

end Operand

/-- Of the tables a step looks at those only that the handles it works on share. -/
theorem seen_act {st : Step}
    (known : ∀ y ∈ st.operands, ∀ h, held y = some h → ∀ place, h.place? = some place → P place) :
    Seen P (act held st) := by
  cases st <;> simp only [Step.operands, List.mem_singleton, forall_eq] at known
  case change c => exact seen_change c
  case makeOpener base under =>
    exact (Opener.blind_new base).bind fun o => Act.alike_pure (agreeOnNew_of_known nofun)
  case resolve on path => exact seen_withHeld fun _ o _ _ => seen_answer _
  case openSave on path under =>
    exact seen_withHeld fun _ o _ _ =>
      (o.alike_openSave path).bind (fun s => alike_keepSave _ under s) AgreeOnNew.agreeOn
  case openExtracted path under =>
    exact (Save.alike_ofDirectory path).bind (alike_keepSave _ under) AgreeOnNew.agreeOn
  case openPacked path under =>
    exact (Save.alike_ofArchive path).bind (alike_keepSave _ under) AgreeOnNew.agreeOn
  case openBytes data under =>
    exact (Packed.blind_ofBytes _ data).bind fun c =>
      Act.alike_pure (agreeOnNew_of_known nofun)
  case kind on => exact seen_withSave known fun s _ => seen_answer _
  case text on =>
    exact seen_withSave known fun s known => (s.blind_text known).bind fun _ => seen_answer _
  case print on => exact seen_withSave known fun s known => seen_printed (s.blind_print known)
  case openRoot on under =>
    exact seen_withSave known fun s known =>
      (s.alike_openDirectory known _).bind (alike_keepDirectory under) AgreeOnNew.agreeOn
  case openDirectory on ino under =>
    exact seen_withSave known fun s known =>
      (s.alike_openDirectory known _).bind (alike_keepDirectory under) AgreeOnNew.agreeOn
  case duplicate on under =>
    exact seen_withSave known fun s known => Act.alike_pure (agreeOnNew_of_known fun _ shared =>
      known _ (by simpa only [Move.place?, Held.place?_save] using shared))
  case ino on => exact seen_withDirectory known fun d _ => seen_answer _
  case list on kind under =>
    exact seen_withDirectory known fun d known => (d.blind_list known kind).bind fun _ =>
      Act.alike_pure (agreeOnNew_of_known nofun)
  case subdirectory on name under =>
    exact seen_withDirectory known fun d known => (Act.blind_ofExcept _).bind fun name =>
      (d.alike_subdirectory known name).bind (alike_keepDirectory under) AgreeOnNew.agreeOn
  case printBelow on depth =>
    exact seen_withDirectory known fun d known => seen_printed (d.blind_printBelow known depth)
  case names on => exact seen_withHeld fun _ l _ _ => seen_answer _
  case size on => exact seen_withHeld fun _ l _ _ => seen_answer _
  case entry on index => exact seen_withHeld fun _ l _ _ => seen_answer _
  case same on other => exact seen_withHeld fun _ l _ _ => seen_withHeld fun _ l' _ _ => seen_answer _
  case release on => exact Act.alike_pure (agreeOnNew_of_known nofun)

end Tables

section Step

variable {st : Step} {s : Session}

theorem step_of_ok {a : Answer} {move : Move}
    (ended : (act s.handle? st s.world).result = .ok (a, move)) :
    step st s = ⟨.ok a, swept ⟨(act s.handle? st s.world).state, move.apply s.held⟩,
      (act s.handle? st s.world).trace ++ move.released s.held⟩ := by
  have within : ((act s.handle? st).within world (fun w s => { s with world := w }) s).result =
      .ok (a, move) := ended
  rw [step, Act.get_bind, Act.bind_of_ok within]
  exact congrArg (Outcome.mk _ _) (congrArg (_ ++ ·) (List.append_nil _))

theorem step_of_error {e : Fault} (ended : (act s.handle? st s.world).result = .error e) :
    step st s = ⟨.error e, { s with world := (act s.handle? st s.world).state },
      (act s.handle? st s.world).trace⟩ := by
  have within : ((act s.handle? st).within world (fun w s => { s with world := w }) s).result =
      .error e := ended
  rw [step, Act.get_bind, Act.bind_of_error within]
  rfl

theorem shares_iff {place : Nat} :
    s.shares place = true ↔ ∃ y h, s.handle? y = some h ∧ h.place? = some place := by
  simp [shares, handle?, List.any_eq_true, Std.TreeMap.mem_toList_iff_getElem?_eq_some]

theorem table_swept {place : Nat} (shared : s.shares place = true) :
    s.swept.world.table place = s.world.table place := by
  simp only [swept, World.table, Array.getD_eq_getD_getElem?, Array.getElem?_mapIdx, shared,
    if_true, Option.map_id']

end Step

end Session

end SaveContainer
