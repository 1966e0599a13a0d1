import Mathlib.Data.List.Pairwise
import SaveContainer.Proofs.Building

/-!
When the members of an archive describe a tree. Main statement: they do exactly when their paths
are short and made of names, no two files have one path, and no file stands where a directory is
asked for. This does not depend on the order of the members.
-/

namespace SaveContainer

open Place

namespace Catalogue

/-- What the members of an archive have to keep to: their paths are short, every component can be
a name, files have paths of their own, and no file has the path of a directory member or stands on
the way to another member. -/
structure Layout (members : List (String × EntryKind)) : Prop where
  short : ∀ m ∈ members, (pathOf m).length ≤ maxDepth
  sound : ∀ m ∈ members, ∀ part ∈ pathOf m, SoundPart part
  files_differ : members.Pairwise fun m m' => m.2 = .file → m'.2 = .file → pathOf m ≠ pathOf m'
  no_directory_at_file : ∀ f ∈ members, ∀ d ∈ members, f.2 = .file → d.2 = .directory →
    pathOf f ≠ pathOf d
  nothing_below_file : ∀ f ∈ members, ∀ m ∈ members, f.2 = .file →
    ¬ (pathOf f <+: pathOf m ∧ pathOf f ≠ pathOf m)

instance (members : List (String × EntryKind)) : Decidable (Layout members) :=
  decidable_of_iff
    ((∀ m ∈ members, (pathOf m).length ≤ maxDepth) ∧
      (∀ m ∈ members, ∀ part ∈ pathOf m, SoundPart part) ∧
      (members.Pairwise fun m m' => m.2 = .file → m'.2 = .file → pathOf m ≠ pathOf m') ∧
      (∀ f ∈ members, ∀ d ∈ members, f.2 = .file → d.2 = .directory → pathOf f ≠ pathOf d) ∧
      ∀ f ∈ members, ∀ m ∈ members, f.2 = .file →
        ¬ (pathOf f <+: pathOf m ∧ pathOf f ≠ pathOf m))
    ⟨fun ⟨short, sound, differ, apart, nothing⟩ => ⟨short, sound, differ, apart, nothing⟩,
      fun h => ⟨h.short, h.sound, h.files_differ, h.no_directory_at_file, h.nothing_below_file⟩⟩

theorem Layout.perm {members members' : List (String × EntryKind)} (h : Layout members)
    (p : members.Perm members') : Layout members' where
  short m hm := h.short m (p.mem_iff.mpr hm)
  sound m hm := h.sound m (p.mem_iff.mpr hm)
  files_differ := by
    refine (p.pairwise_iff ?_).mp h.files_differ
    exact fun differ hy hx => (differ hx hy).symm
  no_directory_at_file f hf d hd := h.no_directory_at_file f (p.mem_iff.mpr hf) d (p.mem_iff.mpr hd)
  nothing_below_file f hf m hm := h.nothing_below_file f (p.mem_iff.mpr hf) m (p.mem_iff.mpr hm)

/-- Two members can stand side by side when neither is a file on the way to the other. -/
def Compatible (m m' : String × EntryKind) : Prop :=
  (m.2 = .file → ¬ pathOf m <+: pathOf m') ∧ (m'.2 = .file → ¬ pathOf m' <+: pathOf m)

instance : Std.Symm Compatible where
  symm _ _ h := h.symm

theorem directory_of_wanted {m m' : String × EntryKind} {x : Place}
    (apart : m.2 = .file → ¬ pathOf m <+: pathOf m') (hx : x ∈ wanted m)
    (shared : x.path <+: pathOf m') : x.kind = .directory := by
  cases kind : x.kind with
  | directory => rfl
  | file =>
      obtain ⟨full, file⟩ := file_of_mem_wanted hx kind
      exact absurd (full ▸ shared) (apart file)

theorem compatible_iff {m m' : String × EntryKind} :
    (∀ x ∈ wanted m, ∀ y ∈ wanted m', x.Agrees y) ↔ Compatible m m' := by
  constructor
  · intro agree
    refine ⟨fun file start => ?_, fun file start => ?_⟩
    · obtain ⟨k, mem⟩ := exists_mem_wanted (pathOf_ne_nil m) start
      have both := agree _ (self_mem_wanted m) _ mem rfl
      simp [file] at both
    · obtain ⟨k, mem⟩ := exists_mem_wanted (pathOf_ne_nil m') start
      have both := agree _ mem _ (self_mem_wanted m') rfl
      simp [file] at both
  · intro compatible x hx y hy eq
    have at_x : x.path <+: pathOf m' := eq ▸ (mem_wanted.mp hy).2.1
    have at_y : y.path <+: pathOf m := eq ▸ (mem_wanted.mp hx).2.1
    exact ⟨directory_of_wanted compatible.1 hx at_x, directory_of_wanted compatible.2 hy at_y⟩

theorem forall_sound_wanted {m : String × EntryKind} :
    (∀ x ∈ wanted m, x.Sound) ↔ ∀ part ∈ pathOf m, SoundPart part := by
  constructor
  · intro sound part mem
    obtain ⟨s, t, eq⟩ := List.append_of_mem mem
    have start : s ++ [part] <+: pathOf m := ⟨t, by rw [eq]; simp⟩
    obtain ⟨k, mem⟩ := exists_mem_wanted (by simp) start
    exact sound _ mem part (by simp)
  · intro sound x hx part last
    exact sound part ((mem_wanted.mp hx).2.1.subset (List.mem_of_getLast? last))

theorem pairwise_compatible_iff {members : List (String × EntryKind)} :
    members.Pairwise Compatible ↔
      (members.Pairwise fun m m' => m.2 = .file → m'.2 = .file → pathOf m ≠ pathOf m') ∧
      (∀ f ∈ members, ∀ d ∈ members, f.2 = .file → d.2 = .directory → pathOf f ≠ pathOf d) ∧
      ∀ f ∈ members, ∀ m ∈ members, f.2 = .file →
        ¬ (pathOf f <+: pathOf m ∧ pathOf f ≠ pathOf m) := by
  constructor
  · intro compatible
    refine ⟨?_, ?_, ?_⟩
    · apply compatible.imp
      intro m m' h file _ eq
      exact h.1 file (eq ▸ List.prefix_rfl)
    · intro f hf d hd file directory eq
      have ne : f ≠ d := by
        rintro rfl
        simp [file] at directory
      exact (compatible.forall hf hd ne).1 file (eq ▸ List.prefix_rfl)
    · intro f hf m hm file ⟨start, ne⟩
      exact (compatible.forall hf hm fun eq => ne (congrArg pathOf eq)).1 file start
  · intro ⟨differ, no_directory, nothing_below⟩
    have apart : ∀ f ∈ members, ∀ m ∈ members, (m.2 = .file → pathOf f ≠ pathOf m) →
        f.2 = .file → ¬ pathOf f <+: pathOf m := by
      intro f hf m hm differ file start
      apply nothing_below f hf m hm file ⟨start, ?_⟩
      cases kind : m.2 with
      | file => exact differ kind
      | directory => exact no_directory f hf m hm file kind
    apply differ.imp_of_mem
    intro m m' hm hm' differ
    exact ⟨fun file => apart m hm m' hm' (differ file) file,
      fun file => apart m' hm' m hm (fun file' => (differ file' file).symm) file⟩

theorem layout_iff {members : List (String × EntryKind)} :
    Layout members ↔ (∀ m ∈ members, (pathOf m).length ≤ maxDepth) ∧
      ∃ settled, (members.flatMap wanted).foldlM settle? [] = some settled := by
  have alone : ∀ m ∈ members, (wanted m).Pairwise Agrees :=
    fun m _ => pairwise_below m.2 [] (pathOf m)
  simp only [settleAll_eq_some_iff, exists_and_left, exists_eq, and_true, List.pairwise_flatMap,
    List.forall_mem_flatMap, forall_sound_wanted, compatible_iff, pairwise_compatible_iff]
  constructor
  · intro h
    exact ⟨h.short, h.sound, alone, h.files_differ, h.no_directory_at_file, h.nothing_below_file⟩
  · intro ⟨short, sound, _, differ, no_directory, nothing_below⟩
    exact ⟨short, sound, differ, no_directory, nothing_below⟩

theorem ofMembers_ends (members : List (String × EntryKind)) :
    (∃ c settled, ofMembers members = .ok c ∧ Layout members ∧
        (members.flatMap wanted).foldlM settle? [] = some settled ∧ Represents c settled) ∨
      ∃ how, ofMembers members = .error (.corrupt how) ∧ ¬ Layout members := by
  have ends := addMembers_settles members represents_empty
  rw [ofMembers]
  generalize addMembers members empty = o at ends ⊢
  cases ends with
  | whole short all represents =>
      exact .inl ⟨_, _, rfl, layout_iff.mpr ⟨short, _, all⟩, all, represents⟩
  | refused _ _ _ none =>
      refine .inr ⟨_, rfl, fun layout => ?_⟩
      obtain ⟨short, settled, all⟩ := layout_iff.mp layout
      simp [none short] at all

theorem ofMembers_ok_iff (members : List (String × EntryKind)) :
    (∃ c, ofMembers members = .ok c) ↔ Layout members := by
  rcases ofMembers_ends members with ⟨c, -, ok, layout, -⟩ | ⟨how, failed, misfit⟩
  · exact iff_of_true ⟨c, ok⟩ layout
  · exact iff_of_false (by simp [failed]) misfit

/-- An archive opens exactly when its members are laid out well, and is corrupt otherwise. -/
theorem ofMembers_ok_iff_layout (members : List (String × EntryKind)) :
    ((∃ c, ofMembers members = .ok c) ↔ Layout members) ∧
      (∀ e, ofMembers members = .error e → ∃ how, e = .corrupt how) ∧
      ∀ members', members.Perm members' →
        ((∃ c, ofMembers members = .ok c) ↔ ∃ c, ofMembers members' = .ok c) := by
  refine ⟨ofMembers_ok_iff members, ?_, ?_⟩
  · intro e failed
    rcases ofMembers_ends members with ⟨c, -, ok, -⟩ | ⟨how, corrupt, -⟩
    · simp [ok] at failed
    · exact ⟨how, Except.error.inj (failed.symm.trans corrupt)⟩
  · intro members' perm
    rw [ofMembers_ok_iff, ofMembers_ok_iff]
    exact ⟨fun layout => layout.perm perm, fun layout => layout.perm perm.symm⟩

/-- A directory's own member may come before or behind what is in it. Names that climb are refused,
and so is a file at the path of a directory, which is the same with and without its slash. -/
theorem ofMembers_ok_iff_layout_climbing :
    let nested : List (String × EntryKind) :=
      [("a/b", .file), ("a/", .directory), ("c", .directory)]
    let faulty : List (List (String × EntryKind)) :=
      [[("../../etc", .file)], [("a//b", .file)], [("a//", .directory)], [("a/", .file)],
        [("a/", .directory), ("a", .file)], [("a", .file), ("a/b", .file)]]
    (∃ c, ofMembers nested = .ok c) ∧ (∃ c, ofMembers nested.reverse = .ok c) ∧
      ∀ members ∈ faulty, ∃ how, ofMembers members = .error (.corrupt how) := by
  intro nested faulty
  obtain ⟨accepted_iff, -, reordered⟩ := ofMembers_ok_iff_layout nested
  have accepted : ∃ c, ofMembers nested = .ok c := accepted_iff.mpr (by decide +kernel)
  have misfits : ∀ members ∈ faulty, ¬ Layout members := by decide +kernel
  refine ⟨accepted, (reordered _ nested.reverse_perm.symm).mp accepted, fun members mem => ?_⟩
  obtain ⟨members_iff, corrupt, -⟩ := ofMembers_ok_iff_layout members
  cases ends : ofMembers members with
  | ok c => exact absurd (members_iff.mp ⟨c, ends⟩) (misfits members mem)
  | error e =>
      obtain ⟨how, rfl⟩ := corrupt e ends
      exact ⟨how, rfl⟩

end Catalogue

end SaveContainer
