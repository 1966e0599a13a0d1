import SaveContainer.Packed
import SaveContainer.Proofs.Act

/-!
Acts that cannot tell some states apart: from related states they do the same, and the states that
they reach are related again. Main statement: printing a container is such an act if opening and
listing its directories are.
-/

namespace SaveContainer

namespace Act

variable {σ τ α β : Type} {R : σ → σ → Prop} {S : α → σ → σ → Prop}

/-- From states related by `R` the act does the same. The states that it reaches are related by
`R`, and if it ends with `a` also by `S a`. -/
def Alike (R : σ → σ → Prop) (S : α → σ → σ → Prop) (m : Act σ α) : Prop :=
  ∀ s s', R s s' → (m s').result = (m s).result ∧ (m s').trace = (m s).trace ∧
    R (m s).state (m s').state ∧ ∀ a, (m s).result = .ok a → S a (m s).state (m s').state

/-- As `Alike`, with nothing to say of what the act ends with. -/
def Blind (R : σ → σ → Prop) (m : Act σ α) : Prop :=
  Alike R (fun _ => R) m

theorem alike_pure {a : α} (h : ∀ s s', R s s' → S a s s') : Alike R S (pure a) := by
  intro s s' related
  refine ⟨rfl, rfl, related, fun b eq => ?_⟩
  cases eq
  exact h s s' related

theorem alike_fail (e : Fault) : Alike R S (fail e) :=
  fun _ _ related => ⟨rfl, rfl, related, nofun⟩

theorem blind_ofExcept (r : Except Fault α) : Blind R (ofExcept r) :=
  fun _ _ related => ⟨rfl, rfl, related, fun _ _ => related⟩

theorem blind_notes (t : Trace) : Blind R (notes t) :=
  fun _ _ related => ⟨rfl, rfl, related, fun _ _ => related⟩

theorem blind_log (e : Event) : Blind R (log e) :=
  blind_notes [.event e]

theorem blind_reaching (t : τ) (m : Act τ Unit) : Blind R (reaching t m) :=
  fun _ _ related => ⟨rfl, rfl, related, fun _ _ => related⟩

theorem Alike.bind {m : Act σ α} {f : α → Act σ β} {S' : β → σ → σ → Prop} (first : Alike R S m)
    (rest : ∀ a, Alike (S a) S' (f a)) (le : ∀ a s s', S a s s' → R s s') :
    Alike R S' (m >>= f) := by
  intro s s' related
  obtain ⟨result, trace, reached, made⟩ := first s s' related
  cases ended : (m s).result with
  | error e =>
      rw [bind_of_error ended, bind_of_error (result.trans ended)]
      exact ⟨rfl, trace, reached, nofun⟩
  | ok a =>
      rw [bind_of_ok ended, bind_of_ok (result.trans ended)]
      obtain ⟨result', trace', reached', made'⟩ := rest a _ _ (made a ended)
      exact ⟨result', by rw [trace, trace'], le a _ _ reached', made'⟩

theorem Blind.bind {m : Act σ α} {f : α → Act σ β} {S : β → σ → σ → Prop} (first : Blind R m)
    (rest : ∀ a, Alike R S (f a)) : Alike R S (m >>= f) :=
  Alike.bind first rest fun _ _ _ related => related

theorem Blind.map {m : Act σ α} {f : α → β} {S : β → σ → σ → Prop} (blind : Blind R m)
    (made : ∀ a s s', R s s' → S (f a) s s') : Alike R S (f <$> m) :=
  blind.bind fun a => alike_pure (made a)

theorem Blind.mapFault {m : Act σ α} (blind : Blind R m) (f : Fault → Fault) :
    Blind R (m.mapFault f) := by
  intro s s' related
  obtain ⟨result, trace, reached, -⟩ := blind s s' related
  exact ⟨congrArg (Except.mapError f) result, trace, reached, fun _ _ => reached⟩

theorem Blind.closing {m : Act σ α} (blind : Blind R m) (t : Trace) : Blind R (m.closing t) := by
  intro s s' related
  obtain ⟨result, trace, reached, -⟩ := blind s s' related
  exact ⟨result, congrArg (· ++ t) trace, reached, fun _ _ => reached⟩

/-- Related states next to one and the same sink. -/
def Beside (R : σ → σ → Prop) (s s' : σ × τ) : Prop :=
  R s.1 s'.1 ∧ s'.2 = s.2

theorem Blind.onFirst {m : Act σ α} (blind : Blind R m) :
    Blind (Beside R) (m.onFirst : Act (σ × τ) α) := by
  rintro s s' ⟨related, same⟩
  obtain ⟨result, trace, reached, -⟩ := blind s.1 s'.1 related
  exact ⟨result, trace, ⟨reached, same⟩, fun _ _ => ⟨reached, same⟩⟩

theorem blind_onSecond (m : Act τ α) : Blind (Beside R) (m.onSecond : Act (σ × τ) α) := by
  rintro ⟨s, k⟩ ⟨s', k'⟩ ⟨related, rfl⟩
  exact ⟨rfl, rfl, ⟨related, rfl⟩, fun _ _ => ⟨related, rfl⟩⟩

theorem Blind.buffered {m : Act (σ × Sink) α} (blind : Blind (Beside R) m) :
    Blind R (Sink.buffered m) := by
  intro s s' related
  obtain ⟨result, trace, ⟨reached, -⟩, -⟩ := blind (s, .unlimited) (s', .unlimited) ⟨related, rfl⟩
  refine ⟨?_, congrArg Trace.unwritten trace, reached, fun _ _ => reached⟩
  simp only [Sink.buffered, result, trace]

end Act

namespace Hierarchy

open Act

variable {σ D : Type} {R : σ → σ → Prop}

/-- Neither opening nor listing a directory tells related states apart. -/
structure Blind (R : σ → σ → Prop) (h : Hierarchy σ D) : Prop where
  root : h.root.Blind R
  list : ∀ d kind, (h.list d kind).Blind R
  subdirectory : ∀ d name, (h.subdirectory d name).Blind R

variable {h : Hierarchy σ D}

theorem blind_eachEntry {body : Nat → Entry → Act σ Unit} (blind : ∀ i e, (body i e).Blind R)
    (start : Nat) (entries : List Entry) : (eachEntry body start entries).Blind R := by
  induction entries generalizing start with
  | nil => exact blind_ofExcept _
  | cons e rest ih => exact (blind start e).bind fun _ => ih (start + 1)

namespace Blind

variable (blind : h.Blind R)
include blind

theorem forEntries (depth : Nat) (d : D) (kind : EntryKind) {body : Entry → Act (σ × Sink) Unit}
    (each : ∀ e, (body e).Blind (Beside R)) :
    (h.forEntries depth d kind body).Blind (Beside R) := by
  refine ((blind.list d kind).mapFault _).onFirst.bind fun entries => ?_
  refine Act.Blind.closing ?_ _
  refine (blind_log _).bind fun _ => (blind_log _).bind fun _ => ?_
  refine Act.Blind.bind ?_ fun _ => blind_log _
  exact blind_eachEntry (fun i e => (blind_notes _).bind fun _ => each e) 0 entries

/-- By induction on the levels left. -/
theorem printWithin (levels depth : Nat) (d : D) :
    (h.printWithin levels depth d).Blind (Beside R) := by
  induction levels generalizing depth d with
  | zero => exact blind_ofExcept _
  | succ levels ih =>
      refine (blind.forEntries depth d .directory fun e => ?_).bind fun _ => ?_
      · refine (blind_onSecond _).bind fun _ => ?_
        refine ((blind.subdirectory d e.name).mapFault _).onFirst.bind fun c => ?_
        exact (ih (depth + 1) c).closing _
      · refine blind.forEntries depth d .file fun e => ?_
        exact (blind_log _).bind fun _ => blind_onSecond _

theorem print : h.print.Blind (Beside R) := by
  refine blind.root.onFirst.bind fun d => ?_
  exact (Act.Blind.closing (blind.printWithin _ 0 d) _).bind fun _ => blind_onSecond _

theorem text : h.text.Blind R :=
  blind.print.buffered.bind fun _ => blind_ofExcept _

end Blind

end Hierarchy

namespace Packed

open Act

variable {σ : Type} {R : σ → σ → Prop}

theorem blind_ofBytes (medium : Zip.Medium) (data : ByteArray) :
    (ofBytes medium data : Act σ Catalogue).Blind R := by
  refine (blind_ofExcept _).bind fun listed => (blind_reaching _ _).bind fun c => ?_
  exact (blind_log _).bind fun _ => blind_ofExcept _

theorem blind_openDirectory (c : Catalogue) (ino : Ino) :
    (openDirectory c ino : Act σ Ino).Blind R := by
  unfold openDirectory
  split
  · exact (blind_log _).bind fun _ => blind_ofExcept _
  · exact blind_ofExcept _

theorem blind_list (c : Catalogue) (ino : Ino) (kind : EntryKind) :
    (list c ino kind : Act σ (List Entry)).Blind R := by
  unfold list
  split <;> exact blind_ofExcept _

theorem blind_subdirectory (c : Catalogue) (ino : Ino) (name : ShortName) :
    (subdirectory c ino name : Act σ Ino).Blind R := by
  unfold subdirectory
  dsimp only
  split
  · split
    · exact (blind_log _).bind fun _ => blind_ofExcept _
    · exact blind_ofExcept _
  · exact blind_ofExcept _

/-- An open archive does not look at the state at all. -/
theorem blind (R : σ → σ → Prop) (c : Catalogue) : (hierarchy σ c).Blind R where
  root := blind_openDirectory c rootIno
  list := blind_list c
  subdirectory := blind_subdirectory c

end Packed

end SaveContainer
