import SaveContainer.Opener
import SaveContainer.Proofs.Alike

/-!
Which tables the acts on an open container look at. Main statement: from worlds with one disk and
one table for the container they do the same, whatever the other tables hold, and what they open
shares the same table again.
-/

namespace SaveContainer

/-- The place of the table that the container shares with others. -/
def Save.place? : Save → Option Nat
  | extracted place => some place
  | packed _ => none

def OpenDirectory.place? : OpenDirectory → Option Nat
  | extracted place _ => some place
  | packed _ _ => none

namespace World

variable {P Q : Nat → Prop} {w w' : World}

/-- The worlds have the same disk, as many tables, and the same ones at these places. -/
structure AgreeOn (P : Nat → Prop) (w w' : World) : Prop where
  disk : w'.disk = w.disk
  size : w'.tables.size = w.tables.size
  table : ∀ place, P place → w'.table place = w.table place

theorem AgreeOn.mono (h : AgreeOn P w w') (sub : ∀ place, Q place → P place) : AgreeOn Q w w' :=
  ⟨h.disk, h.size, fun place known => h.table place (sub place known)⟩

theorem AgreeOn.symm (h : AgreeOn P w w') : AgreeOn P w' w :=
  ⟨h.disk.symm, h.size.symm, fun place known => (h.table place known).symm⟩

theorem AgreeOn.trans {w'' : World} (h : AgreeOn P w w') (h' : AgreeOn P w' w'') :
    AgreeOn P w w'' :=
  ⟨h'.disk.trans h.disk, h'.size.trans h.size,
    fun place known => (h'.table place known).trans (h.table place known)⟩

theorem table_putTable (w : World) (place other : Nat) (t : PathTable) :
    (w.putTable place t).table other =
      if place = other ∧ place < w.tables.size then t else w.table other := by
  simp only [table, putTable, Array.getD_eq_getD_getElem?, Array.getElem?_setIfInBounds]
  by_cases here : place = other
  · subst here
    by_cases lt : place < w.tables.size
    · simp [lt]
    · simp [lt]
  · simp [here]

theorem table_push (w : World) (place : Nat) (t : PathTable) :
    table { w with tables := w.tables.push t } place =
      if place = w.tables.size then t else w.table place := by
  simp only [table, Array.getD_eq_getD_getElem?, Array.getElem?_push]
  split <;> rfl

theorem AgreeOn.putTable (h : AgreeOn P w w') (place : Nat) (t : PathTable) :
    AgreeOn P (w.putTable place t) (w'.putTable place t) where
  disk := h.disk
  size := by simp [World.putTable, h.size]
  table other known := by rw [table_putTable, table_putTable, h.size, h.table other known]

theorem AgreeOn.push (h : AgreeOn P w w') (t : PathTable) :
    AgreeOn (fun place => P place ∨ place = w.tables.size) { w with tables := w.tables.push t }
      { w' with tables := w'.tables.push t } where
  disk := h.disk
  size := by simp [h.size]
  table place known := by
    rw [table_push, table_push, h.size]
    split
    · rfl
    · next other => exact h.table place (known.resolve_right other)

variable {α : Type}

theorem blind_onTable {place : Nat} (known : P place) (m : Disk → Act PathTable α) :
    (onTable place m).Blind (AgreeOn P) := by
  intro w w' h
  have same : m w'.disk (w'.table place) = m w.disk (w.table place) := by
    rw [h.disk, h.table place known]
  have reached : AgreeOn P (onTable place m w).state (onTable place m w').state := by
    change AgreeOn P (w.putTable place _) (w'.putTable place (m w'.disk (w'.table place)).state)
    rw [same]
    exact h.putTable place _
  exact ⟨(congrArg Outcome.result same :), (congrArg Outcome.trace same :), reached,
    fun _ _ => reached⟩

theorem blind_printing {place : Nat} (known : P place)
    (m : Disk → Act (PathTable × Sink) α) : (printing place m).Blind (Act.Beside (AgreeOn P)) := by
  rintro ⟨w, k⟩ ⟨w', k'⟩ ⟨h, rfl⟩
  have same : m w'.disk (w'.table place, k') = m w.disk (w.table place, k') := by
    rw [h.disk, h.table place known]
  have reached : Act.Beside (AgreeOn P) (printing place m (w, k')).state
      (printing place m (w', k')).state := by
    change AgreeOn P (w.putTable place _) (w'.putTable place
      (m w'.disk (w'.table place, k')).state.1) ∧ (m w'.disk (w'.table place, k')).state.2 = _
    rw [same]
    exact ⟨h.putTable place _, rfl⟩
  exact ⟨(congrArg Outcome.result same :), (congrArg Outcome.trace same :), reached,
    fun _ _ => reached⟩

/-- An act that goes on in the same way after a look at either world. -/
theorem alike_get {S : α → World → World → Prop} {f : World → Act World α}
    (same : ∀ w w', AgreeOn P w w' → f w' = f w) (each : ∀ w, (f w).Alike (AgreeOn P) S) :
    (Act.get >>= f).Alike (AgreeOn P) S := by
  intro w w' h
  rw [Act.get_bind, Act.get_bind, same w w' h]
  exact each w w w' h

/-- Besides, the worlds agree on the table of what was opened. -/
def AgreeOnNew (P : Nat → Prop) (of : α → Option Nat) (a : α) : World → World → Prop :=
  AgreeOn fun place => P place ∨ of a = some place

theorem AgreeOnNew.agreeOn {of : α → Option Nat} (a : α) (w w' : World)
    (h : AgreeOnNew P of a w w') : AgreeOn P w w' :=
  h.mono fun _ => Or.inl

theorem agreeOnNew_of_known {of : α → Option Nat} {a : α}
    (known : ∀ place, of a = some place → P place) (w w' : World) (h : AgreeOn P w w') :
    AgreeOnNew P of a w w' :=
  h.mono fun _ => Or.rec id (known _)

end World

open World

variable {P : Nat → Prop}

theorem Opener.blind_new (base : Option Path) : (Opener.new base).Blind (AgreeOn P) := by
  refine alike_get (fun w w' h => by simp only [h.disk]) fun w => ?_
  dsimp only
  split
  · exact Act.blind_ofExcept _
  · exact (Act.blind_log _).bind fun _ => Act.blind_ofExcept _

namespace Save

/-- The new table comes at the same place in both worlds. -/
theorem alike_ofDirectory (p : Path) :
    (ofDirectory p).Alike (AgreeOn P) (AgreeOnNew P Save.place?) := by
  intro w w' h
  have opening : (Extracted.openRoot w'.disk p : Act World PathTable) =
      Extracted.openRoot w.disk p := by rw [h.disk]
  have opened : (Extracted.openRoot w.disk p : Act World PathTable).Blind (AgreeOn P) := by
    unfold Extracted.openRoot
    split
    · exact Act.blind_ofExcept _
    · exact (Act.blind_log _).bind fun _ => Act.blind_ofExcept _
    · exact Act.blind_ofExcept _
  rw [ofDirectory, Act.get_bind, Act.get_bind, opening]
  obtain ⟨result, trace, reached, -⟩ := opened w w' h
  cases ended : (Extracted.openRoot w.disk p : Act World PathTable) w |>.result with
  | error e =>
      rw [Act.bind_of_error ended, Act.bind_of_error (result.trans ended)]
      exact ⟨rfl, trace, reached, nofun⟩
  | ok t =>
      rw [Act.bind_of_ok ended, Act.bind_of_ok (result.trans ended)]
      have grown := h.push t
      have place : (Except.ok (extracted w'.tables.size) : Except Fault Save) =
          .ok (extracted w.tables.size) := by rw [h.size]
      refine ⟨place, congrArg (· ++ []) trace, grown.mono fun _ => .inl, ?_⟩
      intro a eq
      cases eq
      exact grown.mono fun place => Or.imp_right fun eq => (Option.some.inj eq).symm

theorem alike_ofArchive (p : Path) :
    (ofArchive p).Alike (AgreeOn P) (AgreeOnNew P Save.place?) := by
  refine alike_get (fun w w' h => by simp only [h.disk]) fun w => ?_
  split
  · exact Act.alike_fail _
  · split
    · exact Act.alike_fail _
    · exact (Packed.blind_ofBytes _ _).map fun c => agreeOnNew_of_known nofun
    · exact (Packed.blind_ofBytes _ _).map fun c => agreeOnNew_of_known nofun

end Save

theorem Opener.alike_openSave (o : Opener) (p : Path) :
    (o.openSave p).Alike (AgreeOn P) (AgreeOnNew P Save.place?) := by
  refine alike_get (fun w w' h => by simp only [h.disk]) fun w => ?_
  have told (save : Save) : (do Act.log (.openedSave (o.resolve p) save.kind); return save :
      Act World Save).Alike (AgreeOnNew P Save.place? save) (AgreeOnNew P Save.place?) :=
    (Act.blind_log _).bind fun _ => Act.alike_pure fun _ _ => id
  dsimp only
  split
  · exact (Act.alike_fail _).bind told AgreeOnNew.agreeOn
  · exact (Save.alike_ofDirectory _).bind told AgreeOnNew.agreeOn
  · split
    · exact (Save.alike_ofArchive _).bind told AgreeOnNew.agreeOn
    · exact (Act.alike_fail _).bind told AgreeOnNew.agreeOn
  · exact (Act.alike_fail _).bind told AgreeOnNew.agreeOn

section Open

variable {s : Save} (known : ∀ place, s.place? = some place → P place)
include known

theorem Save.alike_openDirectory (ino : Ino) :
    (s.openDirectory ino).Alike (AgreeOn P) (AgreeOnNew P OpenDirectory.place?) := by
  cases s with
  | extracted place =>
      exact (blind_onTable (known place rfl) _).map fun d => agreeOnNew_of_known known
  | packed c =>
      exact (Packed.blind_openDirectory c ino).map fun d => agreeOnNew_of_known nofun

theorem Save.blind_print : s.print.Blind (Act.Beside (AgreeOn P)) := by
  cases s with
  | extracted place => exact blind_printing (known place rfl) _
  | packed c => exact (Packed.blind _ c).print

theorem Save.blind_text : s.text.Blind (AgreeOn P) := by
  cases s with
  | extracted place => exact blind_onTable (known place rfl) _
  | packed c => exact (Packed.blind _ c).text

end Open

namespace OpenDirectory

variable {d : OpenDirectory} (known : ∀ place, d.place? = some place → P place)
include known

theorem blind_list (kind : EntryKind) : (d.list kind).Blind (AgreeOn P) := by
  cases d with
  | extracted place d => exact blind_onTable (known place rfl) _
  | packed c ino => exact Packed.blind_list c ino kind

theorem alike_subdirectory (name : ShortName) :
    (d.subdirectory name).Alike (AgreeOn P) (AgreeOnNew P OpenDirectory.place?) := by
  cases d with
  | extracted place d =>
      exact (blind_onTable (known place rfl) _).map fun c => agreeOnNew_of_known known
  | packed c ino =>
      exact (Packed.blind_subdirectory c ino name).map fun d => agreeOnNew_of_known nofun

theorem blind_printBelow (depth : Nat) :
    (d.printBelow depth).Blind (Act.Beside (AgreeOn P)) := by
  cases d with
  | extracted place d => exact blind_printing (known place rfl) _
  | packed c ino => exact (Packed.blind _ c).printWithin _ depth ino

end OpenDirectory

end SaveContainer
