import Mathlib.Data.List.Nodup
import SaveContainer.PathTable

/-!
Tables of numbers whose two halves agree. Main statement: every path that was ever assigned a
number keeps it, two paths have one number exactly when they have the same components, and the
numbers that were given are the first ones, without a gap.
-/

namespace SaveContainer.PathTable

/-- The components of the paths in the order in which they were first seen. -/
def keys (t : PathTable) : List (List FileName) :=
  t.paths.toList.map Path.key

/-- Each number leads to the path that has it. -/
structure Sound (t : PathTable) : Prop where
  distinct : t.keys.Nodup
  number : ∀ key ino, t.numbers[key]? = some ino ↔ (key, ino) ∈ t.keys.zipIdx rootIno

/-- All that has a number in one table has it in the other. -/
def Extends (t t' : PathTable) : Prop :=
  t.paths.toList <+: t'.paths.toList

variable {t t' : PathTable} {q r : Path} {ino : Ino}

theorem path?_eq_some_iff :
    t.path? ino = some q ↔ (q, ino) ∈ t.paths.toList.zipIdx rootIno := by
  rw [List.mk_mem_zipIdx_iff_le_and_getElem?_sub]
  cases ino with
  | zero => simp [path?, rootIno]
  | succ n => simp [path?, rootIno]

theorem Extends.refl (t : PathTable) : t.Extends t :=
  List.prefix_rfl

theorem Extends.trans {t'' : PathTable} (h : t.Extends t') (h' : t'.Extends t'') :
    t.Extends t'' :=
  List.IsPrefix.trans h h'

theorem Extends.path? (h : t.Extends t') (found : t.path? ino = some q) :
    t'.path? ino = some q := by
  obtain ⟨more, eq⟩ := h
  rw [path?_eq_some_iff] at found ⊢
  rw [← eq, List.zipIdx_append]
  exact List.mem_append_left _ found

namespace Sound

variable (h : t.Sound)
include h

theorem number?_eq_some_iff :
    t.number? q = some ino ↔ ∃ first, t.path? ino = some first ∧ first.key = q.key := by
  rw [PathTable.number?, h.number, keys, List.zipIdx_map]
  simp only [path?_eq_some_iff, List.mem_map, Prod.exists, Prod.map_apply, id_eq, Prod.mk.injEq]
  constructor
  · rintro ⟨first, _, mem, same, rfl⟩
    exact ⟨first, mem, same⟩
  · rintro ⟨first, mem, same⟩
    exact ⟨first, ino, mem, same, rfl⟩

theorem number?_of_path? (found : t.path? ino = some q) : t.number? q = some ino :=
  h.number?_eq_some_iff.mpr ⟨q, found, rfl⟩

theorem number_inj {ino' : Ino} (hq : t.number? q = some ino) (hr : t.number? r = some ino') :
    ino = ino' ↔ q.key = r.key := by
  constructor
  · rintro rfl
    obtain ⟨first, found, same⟩ := h.number?_eq_some_iff.mp hq
    obtain ⟨first', found', same'⟩ := h.number?_eq_some_iff.mp hr
    cases found.symm.trans found'
    exact same.symm.trans same'
  · intro same
    rw [PathTable.number?, same] at hq
    exact Option.some.inj (hq.symm.trans hr)

theorem number?_mono (extends' : t.Extends t') (h' : t'.Sound) (found : t.number? q = some ino) :
    t'.number? q = some ino := by
  obtain ⟨first, at_first, same⟩ := h.number?_eq_some_iff.mp found
  exact h'.number?_eq_some_iff.mpr ⟨first, extends'.path? at_first, same⟩

theorem key_notMem (fresh : t.number? q = none) : q.key ∉ t.keys := by
  intro mem
  obtain ⟨n, lt, eq⟩ := List.getElem_of_mem mem
  have found : t.number? q = some (rootIno + n) := by
    rw [PathTable.number?, h.number, List.mk_mem_zipIdx_iff_le_and_getElem?_sub]
    refine ⟨Nat.le_add_right _ _, ?_⟩
    rw [Nat.add_sub_cancel_left, List.getElem?_eq_getElem lt, eq]
  rw [fresh] at found
  cases found

end Sound

theorem assign_known (known : t.number? q = some ino) : t.assign q = (ino, t) := by
  rw [assign, known]

theorem extends_assign (t : PathTable) (q : Path) : t.Extends (t.assign q).2 := by
  unfold assign
  split
  · exact .refl t
  · rw [Extends, Array.toList_push]
    exact List.prefix_append _ _

theorem sound_empty : empty.Sound where
  distinct := .nil
  number key ino := by simp [keys, empty]

theorem Sound.assign (h : t.Sound) (q : Path) :
    (t.assign q).2.Sound ∧ (t.assign q).2.number? q = some (t.assign q).1 := by
  cases known : t.number? q with
  | some ino =>
      rw [assign_known known]
      exact ⟨h, known⟩
  | none =>
      have fresh := h.key_notMem known
      rw [PathTable.assign, known]
      refine ⟨⟨?_, fun key ino => ?_⟩, Std.TreeMap.getElem?_insert_self⟩
      · simpa [keys] using h.distinct.concat fresh
      · have last : t.paths.size + 1 = rootIno + t.keys.length := by
          simp [keys, rootIno, Nat.add_comm]
        have all : keys ⟨t.paths.push q, t.numbers.insert q.key (t.paths.size + 1)⟩ =
            t.keys ++ [q.key] := by simp [keys]
        rw [all, List.zipIdx_append, List.mem_append, ← h.number, Std.TreeMap.getElem?_insert,
          ← last]
        by_cases same : q.key = key
        · subst same
          have none : t.numbers[q.key]? = none := known
          simp [none, eq_comm]
        · simp [same, Ne.symm same]

theorem sound_ofRoot (p : Path) : (ofRoot p).Sound ∧ (ofRoot p).number? p = some rootIno :=
  sound_empty.assign p

theorem path?_ofRoot (p : Path) : (ofRoot p).path? rootIno = some p := by
  have run : empty.assign p = (1, ⟨#[].push p, _⟩) := rfl
  rw [ofRoot, run]
  rfl

end SaveContainer.PathTable
