import Mathlib.Data.List.Perm.Basic
import SaveContainer.Proofs.Containment
import SaveContainer.Proofs.Tree

/-!
The tree that a directory on disk is printed as: in every directory first the sub-directories and
then all other entries, links to directories among them, each in the order of the bytes of their
names. Main statement: a directory has such a tree, no deeper than a given level, exactly when no
directory lies deeper and all names down to that level can be shown.
-/

namespace SaveContainer.Node

/-- Going down by the names of entries. Links are not followed. -/
inductive Leads : Node → List FileName → Node → Prop
  | here (n : Node) : Leads n [] n
  | inside {es : List (FileName × Node)} {e : FileName × Node} {names : List FileName} {n : Node} :
      e ∈ es → Leads e.2 names n → Leads (.directory es) (e.1 :: names) n

/-- The name is text and fits into a cell. -/
def Showable (name : FileName) : Prop :=
  (Utf8.decode? name).isSome ∧ name.length ≤ ShortName.capacity

instance (name : FileName) : Decidable (Showable name) :=
  inferInstanceAs (Decidable (_ ∧ _))

/-- All entries of the directories down to level `levels` have names that can be shown, and one
level deeper there is no directory. -/
structure Fits (levels : Nat) (n : Node) : Prop where
  showable : ∀ names es, n.Leads names (.directory es) → names.length ≤ levels →
    ∀ e ∈ es, Showable e.1
  shallow : ∀ names es, n.Leads names (.directory es) → names.length ≠ levels + 1

/-- Earlier in the order of the bytes of the names. -/
def Precedes (a b : FileName × Node) : Prop :=
  compare a.1 b.1 = .lt

instance (a b : FileName × Node) : Decidable (Precedes a b) :=
  inferInstanceAs (Decidable (compare a.1 b.1 = .lt))

/-- The entries of a directory, its sub-directories first, both parts in order. -/
structure Parts (es dirs others : List (FileName × Node)) : Prop where
  perm : (dirs ++ others).Perm es
  directories : ∀ e ∈ dirs, e.2.isDirectory = true
  no_directories : ∀ e ∈ others, e.2.isDirectory = false
  dirs_ordered : dirs.Pairwise Precedes
  others_ordered : others.Pairwise Precedes

/-- The tree of a directory with these two parts. -/
inductive Pictured : List (FileName × Node) → List (FileName × Node) → Tree → Prop
  | files {others : List (FileName × Node)} {names : List ShortName} :
      names.map ShortName.toBytes = others.map Prod.fst → Pictured [] others (.files names)
  | directory {raw : FileName} {name : ShortName}
      {es dirs others rest others' : List (FileName × Node)} {inside more : Tree} :
      name.toBytes = raw → Parts es dirs others → Pictured dirs others inside →
      Pictured rest others' more →
      Pictured ((raw, .directory es) :: rest) others' (.directory name inside more)

/-- The tree of a directory. -/
def Shows (n : Node) (t : Tree) : Prop :=
  ∃ dirs others, Parts n.entries dirs others ∧ Pictured dirs others t

theorem eq_of_ordered {l l' : List (FileName × Node)} (h : l.Pairwise Precedes)
    (h' : l'.Pairwise Precedes) (perm : l.Perm l') : l = l' := by
  refine List.Perm.eq_of_pairwise (fun a b _ _ before after => ?_) h h' perm
  exact absurd after (Std.OrientedCmp.not_lt_of_lt before)

namespace Parts

variable {es dirs others dirs' others' : List (FileName × Node)}

theorem perm_filter (h : Parts es dirs others) :
    dirs.Perm (es.filter fun e => e.2.isDirectory) ∧
      others.Perm (es.filter fun e => !e.2.isDirectory) := by
  have left : (dirs ++ others).filter (fun e => e.2.isDirectory) = dirs := by
    rw [List.filter_append, List.filter_eq_self.mpr h.directories, List.filter_eq_nil_iff.mpr,
      List.append_nil]
    exact fun e mem => Bool.eq_false_iff.mp (h.no_directories e mem)
  have right : (dirs ++ others).filter (fun e => !e.2.isDirectory) = others := by
    rw [List.filter_append, List.filter_eq_nil_iff.mpr, List.nil_append,
      List.filter_eq_self.mpr]
    · exact fun e mem => by simp [h.no_directories e mem]
    · exact fun e mem => by simp [h.directories e mem]
  have first := h.perm.filter fun e => e.2.isDirectory
  have second := h.perm.filter fun e => !e.2.isDirectory
  rw [left] at first
  rw [right] at second
  exact ⟨first, second⟩

theorem unique (h : Parts es dirs others) (h' : Parts es dirs' others') :
    dirs = dirs' ∧ others = others' := by
  constructor
  · exact eq_of_ordered h.dirs_ordered h'.dirs_ordered
      (h.perm_filter.1.trans h'.perm_filter.1.symm)
  · exact eq_of_ordered h.others_ordered h'.others_ordered
      (h.perm_filter.2.trans h'.perm_filter.2.symm)

end Parts

theorem Pictured.unique {dirs others : List (FileName × Node)} {t u : Tree}
    (ht : Pictured dirs others t) (hu : Pictured dirs others u) : t = u := by
  induction ht generalizing u with
  | files names =>
      cases hu with
      | files names' =>
          have same := names.trans names'.symm
          rw [List.map_injective_iff.mpr (fun _ _ => ShortName.toBytes_injective) same]
  | directory name parts _ _ ihInside ihMore =>
      cases hu with
      | directory name' parts' inside' more' =>
          obtain ⟨rfl, rfl⟩ := parts.unique parts'
          rw [ShortName.toBytes_injective (name.trans name'.symm), ihInside inside', ihMore more']

theorem Shows.unique {n : Node} {t u : Tree} (ht : n.Shows t) (hu : n.Shows u) : t = u := by
  obtain ⟨dirs, others, parts, pictured⟩ := ht
  obtain ⟨dirs', others', parts', pictured'⟩ := hu
  obtain ⟨rfl, rfl⟩ := parts.unique parts'
  exact pictured.unique pictured'

/-- The entries of one kind as they are listed. -/
def listed (n : Node) (kind : EntryKind) : List (FileName × Node) :=
  (Disk.sorted n.entries).filter fun e => Extracted.kindOf e.2 = kind

theorem ordered_sorted {es : List (FileName × Node)} (distinct : (es.map Prod.fst).Nodup) :
    (Disk.sorted es).Pairwise Precedes := by
  have perm : (Disk.sorted es).Perm es := List.mergeSort_perm _ _
  have differ : (Disk.sorted es).Pairwise fun a b => a.1 ≠ b.1 := by
    rw [← List.pairwise_map]
    exact (perm.map Prod.fst).nodup_iff.mpr distinct
  have ordered : (Disk.sorted es).Pairwise fun a b => (compare a.1 b.1).isLE = true := by
    refine List.pairwise_mergeSort (fun a b c before after => ?_) (fun a b => ?_) es
    · exact Std.TransCmp.isLE_trans before after
    · cases total : (compare a.1 b.1).isLE with
      | true => rfl
      | false =>
          have after := Std.OrientedCmp.lt_of_not_isLE (Bool.eq_false_iff.mp total)
          rw [after]
          rfl
  refine (ordered.and differ).imp fun ⟨before, ne⟩ => ?_
  rcases Ordering.isLE_iff_eq_lt_or_eq_eq.mp before with lt | eq
  · exact lt
  · exact absurd (Std.LawfulEqOrd.compare_eq_iff_eq.mp eq) ne

theorem mem_listed {n : Node} {kind : EntryKind} {e : FileName × Node} :
    e ∈ n.listed kind ↔ e ∈ n.entries ∧ Extracted.kindOf e.2 = kind := by
  rw [listed, List.mem_filter, decide_eq_true_eq, Disk.sorted, List.mem_mergeSort]

theorem kindOf_eq_directory {n : Node} :
    Extracted.kindOf n = .directory ↔ n.isDirectory = true := by
  rw [Extracted.kindOf]
  cases n.isDirectory <;> simp

theorem kindOf_eq_file {n : Node} : Extracted.kindOf n = .file ↔ n.isDirectory = false := by
  rw [Extracted.kindOf]
  cases n.isDirectory <;> simp

theorem parts_listed {es : List (FileName × Node)} (distinct : (es.map Prod.fst).Nodup) :
    Parts es (listed (.directory es) .directory) (listed (.directory es) .file) where
  perm := by
    have others : ∀ e ∈ Disk.sorted es, decide (Extracted.kindOf e.2 = .file) =
        !decide (Extracted.kindOf e.2 = .directory) := by
      intro e _
      cases Extracted.kindOf e.2 <;> rfl
    rw [listed, listed, entries, List.filter_congr others]
    exact (List.filter_append_perm _ _).trans (List.mergeSort_perm _ _)
  directories e mem := kindOf_eq_directory.mp (mem_listed.mp mem).2
  no_directories e mem := kindOf_eq_file.mp (mem_listed.mp mem).2
  dirs_ordered := (ordered_sorted distinct).filter _
  others_ordered := (ordered_sorted distinct).filter _

/-- Entries with their names, if all of them have names that can be shown. -/
def named? : List (FileName × Node) → Option (List (ShortName × Node))
  | [] => some []
  | e :: rest =>
    match Extracted.entryName e.1 with
    | .ok name => (named? rest).map ((name, e.2) :: ·)
    | .error _ => none

/-- What the directories of a disk show. -/
def view : View Node where
  directories n := named? (n.listed .directory)
  files n := (named? (n.listed .file)).map (List.map Prod.fst)

section Named

variable {es : List (FileName × Node)} {xs : List (ShortName × Node)}

theorem named?_eq_some_iff : named? es = some xs ↔
    List.Forall₂ (fun e x => Extracted.entryName e.1 = .ok x.1 ∧ e.2 = x.2) es xs := by
  induction es generalizing xs with
  | nil => simp [named?, eq_comm]
  | cons e rest ih =>
      rw [named?]
      cases named : Extracted.entryName e.1 with
      | error fault => simp [List.forall₂_cons_left_iff, named]
      | ok name =>
          simp only [Option.map_eq_some_iff, ih, List.forall₂_cons_left_iff, named]
          constructor
          · rintro ⟨others, all, rfl⟩
            exact ⟨(name, e.2), others, ⟨rfl, rfl⟩, all, rfl⟩
          · rintro ⟨⟨_, _⟩, others, ⟨same, rfl⟩, all, rfl⟩
            cases same
            exact ⟨others, all, rfl⟩

theorem exists_named?_iff :
    (∃ xs, named? es = some xs) ↔ ∀ e ∈ es, ∃ name, Extracted.entryName e.1 = .ok name := by
  induction es with
  | nil => simp [named?]
  | cons e rest ih =>
      rw [List.forall_mem_cons, ← ih, named?]
      cases Extracted.entryName e.1 with
      | error fault => simp
      | ok name => simp

theorem exists_of_named? (named : named? es = some xs) {name : ShortName} {n : Node}
    (mem : (name, n) ∈ xs) : ∃ raw, (raw, n) ∈ es ∧ Extracted.entryName raw = .ok name := by
  have all := named?_eq_some_iff.mp named
  clear named
  induction all with
  | nil => cases mem
  | @cons e first _ _ same _ ih =>
      rcases List.mem_cons.mp mem with rfl | later
      · obtain ⟨named, rfl⟩ := same
        exact ⟨e.1, List.mem_cons_self .., named⟩
      · obtain ⟨raw, entry, named⟩ := ih later
        exact ⟨raw, List.mem_cons_of_mem e entry, named⟩

theorem snd_of_named? (named : named? es = some xs) : xs.map Prod.snd = es.map Prod.snd := by
  have all := named?_eq_some_iff.mp named
  clear named
  induction all with
  | nil => rfl
  | cons same _ ih => rw [List.map_cons, List.map_cons, ih, same.2]

theorem toBytes_of_named? (named : named? es = some xs) :
    (xs.map Prod.fst).map ShortName.toBytes = es.map Prod.fst := by
  have all := named?_eq_some_iff.mp named
  clear named
  induction all with
  | nil => rfl
  | cons same _ ih =>
      rw [List.map_cons, List.map_cons, List.map_cons, ih, (Extracted.entryName_ok same.1).1]

end Named

theorem showable_iff {name : FileName} (isName : Path.IsName name) :
    Showable name ↔ ∃ n, Extracted.entryName name = .ok n := by
  unfold Showable Extracted.entryName
  cases text : Utf8.decode? name with
  | none => simp
  | some decoded =>
      have fits : (∃ n, ShortName.ofBytes name = .ok n) ↔ name.length ≤ ShortName.capacity := by
        rw [ShortName.ofBytes_isOk_iff, and_iff_left isName.zero_notMem]
      simp only [Option.isSome_some, true_and, ← fits]
      cases ShortName.ofBytes name <;> simp [Except.mapError]

theorem exists_of_isDirectory {n : Node} (h : n.isDirectory = true) :
    ∃ es, n = .directory es := by
  cases n with
  | directory es => exact ⟨es, rfl⟩
  | _ => cases h

theorem Leads.isDirectory {n : Node} {names : List FileName} {es : List (FileName × Node)}
    (h : n.Leads names (.directory es)) : n.isDirectory = true := by
  cases h with
  | here => rfl
  | inside => rfl

theorem Leads.wellFormed {n m : Node} {names : List FileName} (h : n.Leads names m)
    (top : n.WellFormed) : m.WellFormed := by
  induction h with
  | here n => exact top
  | inside mem _ ih =>
      cases top with
      | directory _ _ inner => exact ih (inner _ mem)

theorem Leads.isName {n m : Node} {names : List FileName} (h : n.Leads names m)
    (top : n.WellFormed) : ∀ name ∈ names, Path.IsName name := by
  induction h with
  | here n => exact List.forall_mem_nil _
  | inside mem _ ih =>
      cases top with
      | directory isName _ inner =>
          exact List.forall_mem_cons.mpr ⟨isName _ mem, ih (inner _ mem)⟩

theorem Leads.eq_of_nil {n m : Node} (h : n.Leads [] m) : m = n := by
  cases h
  rfl

theorem leads_append_iff {n m : Node} {names more : List FileName} :
    n.Leads (names ++ more) m ↔ ∃ k, n.Leads names k ∧ k.Leads more m := by
  constructor
  · intro h
    induction names generalizing n with
    | nil => exact ⟨n, .here n, h⟩
    | cons name names ih =>
        cases h with
        | inside mem below =>
            obtain ⟨k, first, second⟩ := ih below
            exact ⟨k, .inside mem first, second⟩
  · rintro ⟨k, first, second⟩
    induction first with
    | here n => exact second
    | inside mem _ ih => exact .inside mem (ih second)

theorem Leads.entry {n : Node} {names : List FileName} {es : List (FileName × Node)}
    (h : n.Leads names (.directory es)) {e : FileName × Node} (mem : e ∈ es) :
    n.Leads (names ++ [e.1]) e.2 :=
  leads_append_iff.mpr ⟨_, h, .inside mem (.here e.2)⟩

theorem Leads.unique {n m m' : Node} {names : List FileName} (h : n.Leads names m)
    (h' : n.Leads names m') (top : n.WellFormed) : m = m' := by
  induction h with
  | here n =>
      cases h' with
      | here => rfl
  | @inside es e names m mem _ ih =>
      cases top with
      | directory _ distinct inner =>
          -- The second way down starts at an entry of the same name.
          generalize same : e.1 :: names = all at h'
          cases h' with
          | here => cases same
          | inside mem' below' =>
              injection same with name rest
              subst rest
              obtain rfl := List.inj_on_of_nodup_map distinct mem mem' name
              exact ih below' (inner _ mem)

section View

variable {n : Node} {t : Tree} {es : List (FileName × Node)}

theorem entryName_of_unfolds (h : view.Unfolds n t) :
    ∀ e ∈ n.entries, ∃ name, Extracted.entryName e.1 = .ok name := by
  obtain ⟨subs, files, hsubs, hfiles, -⟩ := h
  obtain ⟨others, hothers, -⟩ := Option.map_eq_some_iff.mp hfiles
  intro e mem
  cases kind : Extracted.kindOf e.2 with
  | directory => exact exists_named?_iff.mp ⟨subs, hsubs⟩ e (mem_listed.mpr ⟨mem, kind⟩)
  | file => exact exists_named?_iff.mp ⟨others, hothers⟩ e (mem_listed.mpr ⟨mem, kind⟩)

theorem child_of_unfolds (h : view.Unfolds n t) {e : FileName × Node} (mem : e ∈ n.entries)
    (directory : e.2.isDirectory = true) : view.Child n e.2 := by
  obtain ⟨subs, -, hsubs, -⟩ := h
  refine ⟨subs, hsubs, ?_⟩
  rw [snd_of_named? hsubs]
  exact List.mem_map.mpr ⟨e, mem_listed.mpr ⟨mem, kindOf_eq_directory.mpr directory⟩, rfl⟩

-- By induction on the way down: each directory on it has a tree, and it is lower than the one above.
theorem fits_of_unfolds {names : List FileName} (leads : n.Leads names (.directory es))
    {levels : Nat} (h : view.Unfolds n t) (le : t.height ≤ levels) :
    names.length ≤ levels ∧ ∀ e ∈ es, ∃ name, Extracted.entryName e.1 = .ok name := by
  generalize end_ : Node.directory es = m at leads
  induction leads generalizing t levels with
  | here n =>
      subst end_
      exact ⟨Nat.zero_le _, entryName_of_unfolds h⟩
  | @inside es' e names m mem below ih =>
      subst end_
      obtain ⟨u, hu, lt⟩ := h.child (child_of_unfolds h mem below.isDirectory)
      obtain ⟨length, named⟩ := ih hu (Nat.le_sub_one_of_lt (Nat.lt_of_lt_of_le lt le)) rfl
      rw [List.length_cons]
      exact ⟨by omega, named⟩

theorem exists_listed (named : ∀ e ∈ n.entries, ∃ name, Extracted.entryName e.1 = .ok name) :
    ∃ subs files, view.directories n = some subs ∧ view.files n = some files := by
  have all (kind : EntryKind) : ∃ xs, named? (n.listed kind) = some xs :=
    exists_named?_iff.mpr fun e mem => named e (mem_listed.mp mem).1
  obtain ⟨subs, hsubs⟩ := all .directory
  obtain ⟨others, hothers⟩ := all .file
  exact ⟨subs, _, hsubs, congrArg (Option.map _) hothers⟩

theorem Fits.inside {levels : Nat} (fits : Fits levels (.directory es)) {e : FileName × Node}
    (mem : e ∈ es) {sub : List (FileName × Node)} (directory : e.2 = .directory sub) :
    ∃ less, levels = less + 1 ∧ Fits less (.directory sub) := by
  have deeper {names : List FileName} {m : Node} (leads : (Node.directory sub).Leads names m) :
      (Node.directory es).Leads (e.1 :: names) m := .inside mem (directory ▸ leads)
  cases levels with
  | zero => exact absurd rfl (fits.shallow [e.1] sub (deeper (.here _)))
  | succ less =>
      refine ⟨less, rfl, fun names es' leads le => ?_, fun names es' leads eq => ?_⟩
      · exact fits.showable _ es' (deeper leads) (Nat.succ_le_succ le)
      · exact fits.shallow _ es' (deeper leads) (congrArg Nat.succ eq)

-- By induction on the levels: what fits a directory fits its sub-directories, one level less.
theorem unfolds_of_fits {levels : Nat} (wellFormed : (Node.directory es).WellFormed)
    (fits : Fits levels (.directory es)) :
    ∃ t, view.Unfolds (.directory es) t ∧ t.height ≤ levels := by
  induction levels using Nat.strongRecOn generalizing es with
  | ind levels ih =>
      cases wellFormed with
      | directory isName distinct inner =>
          obtain ⟨subs, files, hsubs, hfiles⟩ := exists_listed (n := .directory es) fun e mem =>
            (showable_iff (isName e mem)).mp (fits.showable [] es (.here _) (Nat.zero_le _) e mem)
          have below : ∀ m ∈ subs.map Prod.snd, ∃ u, view.Unfolds m u ∧ u.height < levels := by
            intro m mem
            rw [snd_of_named? hsubs] at mem
            obtain ⟨e, listed, rfl⟩ := List.mem_map.mp mem
            obtain ⟨entry, kind⟩ := mem_listed.mp listed
            cases at_e : e.2 with
            | directory sub =>
                obtain ⟨less, rfl, fits'⟩ := fits.inside entry at_e
                have inside := inner e entry
                rw [at_e] at inside
                obtain ⟨u, hu, le⟩ := ih less (Nat.lt_succ_self less) inside fits'
                exact ⟨u, hu, Nat.lt_succ_of_le le⟩
            | _ => simp [at_e, Extracted.kindOf, isDirectory] at kind
          obtain ⟨t, holds, le⟩ := View.holds_of_forall_unfolds files below
          exact ⟨t, ⟨subs, files, hsubs, hfiles, holds⟩, le⟩

theorem exists_unfolds_iff_fits (levels : Nat) (wellFormed : (Node.directory es).WellFormed) :
    (∃ t, view.Unfolds (.directory es) t ∧ t.height ≤ levels) ↔ Fits levels (.directory es) := by
  constructor
  · intro ⟨t, ht, height⟩
    refine ⟨fun names es' leads _ e mem => ?_, fun names es' leads deep => ?_⟩
    · have named := (fits_of_unfolds leads ht height).2 e mem
      cases leads.wellFormed wellFormed with
      | directory isName _ _ => exact (showable_iff (isName e mem)).mpr named
    · have shallow := (fits_of_unfolds leads ht height).1
      omega
  · exact unfolds_of_fits wellFormed

/-- What a directory unfolds to is its tree, by induction on how the tree is read. -/
theorem pictured_of_holds {subs : List (ShortName × Node)} {files : List ShortName}
    (h : view.Holds subs files t) {dirs others : List (FileName × Node)}
    (hsubs : named? dirs = some subs) (hfiles : (named? others).map (List.map Prod.fst) = some files)
    (wellFormed : ∀ e ∈ dirs, e.2.WellFormed) (directories : ∀ e ∈ dirs, e.2.isDirectory = true) :
    Pictured dirs others t := by
  induction h generalizing dirs others with
  | files names =>
      obtain ⟨xs, hxs, rfl⟩ := Option.map_eq_some_iff.mp hfiles
      have none : dirs = [] := by
        simpa using (snd_of_named? hsubs).symm
      subst none
      exact .files (toBytes_of_named? hxs)
  | @directory name k subs rest files names inside more listed listed' _ _ ihInside ihMore =>
      have all := named?_eq_some_iff.mp hsubs
      obtain ⟨e, dirs, ⟨named, rfl⟩, others', rfl⟩ := List.forall₂_cons_right_iff.mp all
      obtain ⟨raw, k⟩ := e
      have inside := wellFormed (raw, k) (List.mem_cons_self ..)
      have directory := directories (raw, k) (List.mem_cons_self ..)
      cases inside with
      | directory isName distinct inner =>
          refine .directory (Extracted.entryName_ok named).1 (parts_listed distinct)
            (ihInside listed listed' ?_ ?_) (ihMore (named?_eq_some_iff.mpr others') hfiles ?_ ?_)
          · exact fun e mem => inner e (mem_listed.mp mem).1
          · exact fun e mem => kindOf_eq_directory.mp (mem_listed.mp mem).2
          · exact fun e mem => wellFormed e (List.mem_cons_of_mem _ mem)
          · exact fun e mem => directories e (List.mem_cons_of_mem _ mem)
      | _ => cases directory

theorem shows_of_unfolds (wellFormed : n.WellFormed) (h : view.Unfolds n t)
    (directory : n.isDirectory = true) : n.Shows t := by
  obtain ⟨subs, files, hsubs, hfiles, holds⟩ := h
  cases wellFormed with
  | directory isName distinct inner =>
      refine ⟨_, _, parts_listed distinct, pictured_of_holds holds hsubs hfiles ?_ ?_⟩
      · exact fun e mem => inner e (mem_listed.mp mem).1
      · exact fun e mem => kindOf_eq_directory.mp (mem_listed.mp mem).2
  | _ => cases directory

end View

end SaveContainer.Node
