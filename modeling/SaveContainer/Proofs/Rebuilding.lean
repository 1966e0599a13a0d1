import SaveContainer.Proofs.PackedTree

/-!
The members that a catalogue describes by itself: every node below the root by its path, in the
order of the numbers. Main statement: adding these members gives the same catalogue, and adding
members for directories that are there already changes nothing.
-/

namespace SaveContainer

open Place Node

theorem sep_notMem_of_mem_pieces {α : Type} [DecidableEq α] {sep : α} {l p : List α}
    (mem : p ∈ pieces sep l) : sep ∉ p := by
  induction l generalizing p with
  | nil =>
      obtain rfl := List.mem_singleton.mp mem
      exact List.not_mem_nil
  | cons a l ih =>
      rw [pieces] at mem
      split at mem
      · rcases List.mem_cons.mp mem with rfl | mem
        · exact List.not_mem_nil
        · exact ih mem
      · next ne =>
          split at mem
          · obtain rfl := List.mem_singleton.mp mem
            simpa [eq_comm] using ne
          · next q qs eq =>
              rcases List.mem_cons.mp mem with rfl | mem
              · have behind := ih (eq ▸ List.mem_cons_self ..)
                simpa [eq_comm, behind] using ne
              · exact ih (eq ▸ List.mem_cons_of_mem q mem)

theorem Catalogue.slash_notMem_of_mem_pathOf {m : String × EntryKind} {part : List Char}
    (mem : part ∈ pathOf m) : '/' ∉ part := by
  rw [← memberPath_eq_pathOf] at mem
  exact sep_notMem_of_mem_pieces mem

namespace Place

/-- Places that came one by one, each below a directory that was there and at a path of its own. -/
inductive Grown : List Place → Prop
  | nil : Grown []
  | add {settled : List Place} {p : List (List Char)} {part : List Char} {kind : EntryKind} :
      Grown settled → ⟨p, .directory⟩ ∈ root :: settled → SoundPart part → '/' ∉ part →
      (∀ y ∈ root :: settled, y.path ≠ p ++ [part]) → Grown (settled ++ [⟨p ++ [part], kind⟩])

variable {settled settled' : List Place} {x : Place} {p : List (List Char)} {part : List Char}
  {kind : EntryKind}

namespace Grown

theorem settles (h : Grown settled) (parent : ⟨p, .directory⟩ ∈ root :: settled)
    (slashless : '/' ∉ part) (step : settle? settled ⟨p ++ [part], kind⟩ = some settled') :
    Grown settled' ∧ ⟨p ++ [part], kind⟩ ∈ settled' := by
  obtain ⟨sound, agree, rfl⟩ := settle?_eq_some_iff.mp step
  split
  · next mem => exact ⟨h, mem⟩
  · next new =>
      refine ⟨h.add parent (sound part (by simp)) slashless ?_, by simp⟩
      intro y hy eq
      rcases List.mem_cons.mp hy with rfl | hy
      · simp [root] at eq
      · exact new ((agree y hy).eq eq ▸ hy)

theorem settles_below {parts : List (List Char)} (h : Grown settled)
    (parent : ⟨p, .directory⟩ ∈ root :: settled) (slashless : ∀ part ∈ parts, '/' ∉ part)
    (all : (Place.below kind p parts).foldlM settle? settled = some settled') :
    Grown settled' := by
  induction parts generalizing p settled with
  | nil =>
      cases all
      exact h
  | cons part rest ih =>
      obtain ⟨here, after⟩ := List.forall_mem_cons.mp slashless
      rw [Place.below, List.foldlM_cons, Option.bind_eq_bind, Option.bind_eq_some_iff] at all
      obtain ⟨next, first, others⟩ := all
      obtain ⟨grown, mem⟩ := h.settles parent here first
      by_cases last : rest = []
      · subst last
        cases others
        exact grown
      · rw [if_neg last] at mem
        exact ih grown (List.mem_cons_of_mem root mem) after others

theorem settles_members {members : List (String × EntryKind)} (h : Grown settled)
    (all : (members.flatMap wanted).foldlM settle? settled = some settled') :
    Grown settled' := by
  induction members generalizing settled with
  | nil =>
      cases all
      exact h
  | cons m members ih =>
      rw [List.flatMap_cons, List.foldlM_append, Option.bind_eq_bind,
        Option.bind_eq_some_iff] at all
      obtain ⟨next, first, others⟩ := all
      have slashless : ∀ part ∈ Catalogue.pathOf m, '/' ∉ part :=
        fun _ => Catalogue.slash_notMem_of_mem_pathOf
      exact ih (h.settles_below (List.mem_cons_self ..) slashless first) others

variable (h : Grown settled)
include h

theorem distinct : (settled.map path).Nodup := by
  induction h with
  | nil => exact .nil
  | add _ _ _ _ fresh ih =>
      rw [List.map_append, List.map_singleton]
      refine List.nodup_append.mpr ⟨ih, List.nodup_singleton _, ?_⟩
      intro q hq q' hq' eq
      obtain ⟨y, hy, rfl⟩ := List.mem_map.mp hq
      exact fresh y (List.mem_cons_of_mem root hy) (eq.trans (List.mem_singleton.mp hq'))

theorem path_parts (mem : x ∈ root :: settled) :
    ∀ part ∈ x.path, SoundPart part ∧ '/' ∉ part := by
  induction h generalizing x with
  | nil =>
      obtain rfl := List.mem_singleton.mp mem
      exact List.forall_mem_nil _
  | add _ parent sound slashless _ ih =>
      rw [← List.cons_append, List.mem_append] at mem
      rcases mem with old | new
      · exact ih old
      · obtain rfl := List.mem_singleton.mp new
        rw [List.forall_mem_append, List.forall_mem_singleton]
        exact ⟨ih parent, sound, slashless⟩

/-- The directories on the way to a place are there. -/
theorem directory_mem (mem : x ∈ root :: settled) {q : List (List Char)} (ne : q ≠ [])
    (start : q <+: x.path) (short : q ≠ x.path) : ⟨q, .directory⟩ ∈ settled := by
  induction h generalizing x with
  | nil =>
      obtain rfl := List.mem_singleton.mp mem
      exact absurd (List.prefix_nil.mp start) ne
  | @add settled p _ _ _ parent _ _ _ ih =>
      refine List.mem_append_left _ ?_
      rw [← List.cons_append, List.mem_append] at mem
      rcases mem with old | new
      · exact ih old start short
      · obtain rfl := List.mem_singleton.mp new
        have within : q <+: p := (List.prefix_concat_iff.mp start).resolve_left short
        by_cases whole : q = p
        · subst whole
          exact List.mem_of_ne_of_mem (fun eq => ne (congrArg path eq)) parent
        · exact ih parent within whole

theorem length_lt {n : Nat} (mem : (x, n) ∈ numbered settled) : x.path.length < n := by
  induction h generalizing x n with
  | nil =>
      obtain ⟨rfl, rfl⟩ := Prod.mk.inj (List.mem_singleton.mp mem)
      exact Nat.one_pos
  | @add settled p part kind _ parent _ _ _ ih =>
      rw [numbered_concat, List.mem_append] at mem
      rcases mem with old | new
      · exact ih old
      · obtain ⟨rfl, rfl⟩ := Prod.mk.inj (List.mem_singleton.mp new)
        obtain ⟨m, at_m⟩ := exists_mem_numbered parent
        have above : p.length < m := ih at_m
        have le := (le_of_mem_numbered at_m).2
        simp
        omega

/-- A way that is there already, to its end, adds nothing. -/
theorem settles_again (mem : ⟨p, .directory⟩ ∈ root :: settled) :
    (Place.below .directory [] p).foldlM settle? settled = some settled := by
  have there : ∀ y ∈ Place.below .directory [] p, y ∈ settled ∧ y.kind = .directory := by
    intro y hy
    obtain ⟨q, ne, start, rfl⟩ := mem_below.mp hy
    simp only [List.nil_append, ite_self, and_true]
    by_cases whole : q = p
    · subst whole
      exact List.mem_of_ne_of_mem (fun eq => ne (congrArg path eq)) mem
    · exact h.directory_mem mem ne start whole
  have stays : ∀ ys : List Place, (∀ y ∈ ys, y ∈ settled ∧ y.kind = .directory) →
      ys.foldlM settle? settled = some settled := by
    intro ys there
    induction ys with
    | nil => rfl
    | cons y ys ih =>
        obtain ⟨⟨mem, directory⟩, after⟩ := List.forall_mem_cons.mp there
        have sound : y.Sound := fun part last =>
          (h.path_parts (List.mem_cons_of_mem root mem) part (List.mem_of_getLast? last)).1
        rw [List.foldlM_cons, settle?_of_mem sound directory h.distinct mem]
        exact ih after
  exact stays _ there

theorem settles_again_wanted {m : String × EntryKind} (directory : m.2 = .directory)
    (mem : ⟨Catalogue.pathOf m, .directory⟩ ∈ root :: settled) :
    (wanted m).foldlM settle? settled = some settled := by
  rw [wanted, directory]
  exact h.settles_again mem

end Grown

theorem below_concat (kind : EntryKind) (p parts : List (List Char)) (part : List Char) :
    below kind p (parts ++ [part]) =
      below .directory p parts ++ [⟨p ++ parts ++ [part], kind⟩] := by
  induction parts generalizing p with
  | nil => simp [below]
  | cons first parts ih => simp [below, ih]

/-- The member for a place: a directory's name ends in a slash. -/
def member (x : Place) : String × EntryKind :=
  (Packed.memberName (x.path.map Utf8.encode, x.kind), x.kind)

theorem pathOf_member (ne : x.path ≠ []) (slashless : ∀ part ∈ x.path, '/' ∉ part) :
    Catalogue.pathOf x.member = x.path := by
  have whole : (['/'].intercalate x.path).splitOn '/' = x.path :=
    List.splitOn_intercalate '/' slashless ne
  have same : texts (x.path.map Utf8.encode) = x.path := by
    rw [texts, List.map_map]
    exact (List.map_congr_left fun part _ => Utf8.lossy_encode part).trans (List.map_id _)
  obtain ⟨path, kind⟩ := x
  rw [member, Packed.pathOf_memberName_eq, same, whole]

theorem Grown.pathOf_member (h : Grown settled) (mem : x ∈ settled) :
    Catalogue.pathOf x.member = x.path := by
  refine Place.pathOf_member ?_ fun part at_part =>
    (h.path_parts (List.mem_cons_of_mem root mem) part at_part).2
  induction h with
  | nil => cases mem
  | add _ _ _ _ _ ih =>
      rcases List.mem_append.mp mem with old | new
      · exact ih old
      · obtain rfl := List.mem_singleton.mp new
        exact List.concat_ne_nil _ _

/-- Each place is settled by its own member, since the way to it is settled before. -/
theorem Grown.settled_members (h : Grown settled) :
    ((settled.map member).flatMap wanted).foldlM settle? [] = some settled := by
  induction h with
  | nil => rfl
  | @add settled p part kind before parent sound slashless fresh ih =>
      have grown : Grown (settled ++ [⟨p ++ [part], kind⟩]) :=
        before.add parent sound slashless fresh
      have path := grown.pathOf_member (List.mem_append_right _ (List.mem_singleton_self _))
      have last : settle? settled ⟨p ++ [part], kind⟩ = some (settled ++ [⟨p ++ [part], kind⟩]) :=
        settle?_of_fresh (by simpa [Place.Sound] using sound)
          fun y hy => fresh y (List.mem_cons_of_mem root hy)
      have ways : wanted (member ⟨p ++ [part], kind⟩) =
          Place.below .directory [] p ++ [⟨p ++ [part], kind⟩] := by
        rw [wanted, path, below_concat, List.nil_append]
        rfl
      rw [List.map_append, List.flatMap_append, List.foldlM_append, ih, List.map_singleton,
        List.flatMap_singleton, ways]
      change List.foldlM settle? settled _ = _
      rw [List.foldlM_append, before.settles_again parent]
      change List.foldlM settle? settled _ = _
      rw [List.foldlM_cons, last]
      rfl

end Place

namespace Catalogue

/-- The directory that lists a node. -/
def parent? (c : Catalogue) (ino : Ino) : Option Ino :=
  (List.range' rootIno c.nodes.size).find? fun parent =>
    ino ∈ c.children parent .directory ∨ ino ∈ c.children parent .file

/-- The names on the way from the root to a node that is at most so many levels below it. -/
def way (c : Catalogue) : Nat → Ino → List ShortName
  | 0, _ => []
  | levels + 1, ino =>
    match c.parent? ino with
    | none => []
    | some parent => c.way levels parent ++ [c.nameOf ino]

/-- The names on the way to a node. A directory has a smaller number than what it lists. -/
def namesTo (c : Catalogue) (ino : Ino) : List FileName :=
  (c.way ino ino).map ShortName.toBytes

/-- A node as a member of an archive. -/
def member (c : Catalogue) (ino : Ino) : String × EntryKind :=
  let kind := if c.isDirectory ino then .directory else .file
  (Packed.memberName (c.namesTo ino, kind), kind)

/-- All nodes but the root as members, in the order of their numbers. -/
def members (c : Catalogue) : List (String × EntryKind) :=
  (List.range' 2 (c.nodes.size - 1)).map c.member

/-- The same nodes with the same numbers, and the same look-up by name. -/
structure Same (c c' : Catalogue) : Prop where
  nodes : c'.nodes = c.nodes
  numbers : c'.numbers.toList = c.numbers.toList

namespace Represents

variable {c c' : Catalogue} {settled : List Place} (h : Represents c settled)
include h

theorem exists_place {n : Nat} (pos : 1 ≤ n) (le : n ≤ c.nodes.size) :
    ∃ x, (x, n) ∈ numbered settled := by
  rw [h.size] at le
  have lt : n - 1 < (root :: settled).length := by
    rw [List.length_cons]
    omega
  exact ⟨_, mem_numbered_iff.mpr ⟨pos, List.getElem?_eq_getElem lt⟩⟩

theorem exists_of_isDirectory {n : Nat} (directory : c.isDirectory n = true) :
    ∃ x, (x, n) ∈ numbered settled := by
  cases n with
  | zero => cases directory
  | succ i =>
      refine h.exists_place (Nat.succ_pos i) (Nat.lt_of_not_le fun beyond => ?_)
      have none : c.node? (i + 1) = none := Array.getElem?_eq_none beyond
      rw [isDirectory, none] at directory
      cases directory

theorem same (h' : Represents c' settled) : Same c c' where
  nodes := by
    refine Array.ext_getElem? fun i => ?_
    by_cases lt : i < c.nodes.size
    · obtain ⟨x, mem⟩ := h.exists_place (Nat.succ_pos i) lt
      obtain ⟨name, hname, node⟩ := h.node x (i + 1) mem
      obtain ⟨name', hname', node'⟩ := h'.node x (i + 1) mem
      obtain rfl := ShortName.toBytes_injective (hname.trans hname'.symm)
      exact node'.trans node.symm
    · have size : c'.nodes.size = c.nodes.size := h'.size.trans h.size.symm
      rw [Array.getElem?_eq_none (by omega), Array.getElem?_eq_none (by omega)]
  numbers := by
    have found : ∀ key : ChildKey, c'.numbers[key]? = c.numbers[key]? := by
      intro ⟨parent, name⟩
      refine Option.ext fun ino => ?_
      exact (h'.number parent name ino).trans (h.number parent name ino).symm
    exact (Std.TreeMap.Equiv.of_forall_constGet?_eq found).toList_eq

theorem mem_children_iff {x : Place} {n ino : Nat} (mem : (x, n) ∈ numbered settled)
    (kind : EntryKind) : ino ∈ c.children n kind ↔
      x.kind = .directory ∧ ∃ part, (⟨x.path ++ [part], kind⟩, ino) ∈ numbered settled := by
  obtain ⟨path, k⟩ := x
  cases k with
  | directory => rw [h.children_eq mem, mem_childNumbers, and_iff_right rfl]
  | file =>
      obtain ⟨name, -, node⟩ := h.node _ n mem
      rw [children, node]
      simp [Content.ofPlace, Content.children]

theorem parent?_eq_some_iff {x : Place} {n ino : Nat} (mem : (x, ino) ∈ numbered settled) :
    c.parent? ino = some n ↔
      x.path ≠ [] ∧ (⟨x.path.dropLast, .directory⟩, n) ∈ numbered settled := by
  have listed : ∀ n, c.parent? ino = some n →
      x.path ≠ [] ∧ (⟨x.path.dropLast, .directory⟩, n) ∈ numbered settled := by
    intro n found
    have range := List.mem_range'_1.mp (List.mem_of_find?_eq_some found)
    obtain ⟨⟨path, k⟩, at_n⟩ := h.exists_place (n := n) range.1 (by simp [rootIno] at range; omega)
    have lists := List.find?_some found
    simp only [h.mem_children_iff at_n, decide_eq_true_eq, ← and_or_left] at lists
    obtain ⟨rfl, ⟨part, below⟩ | ⟨part, below⟩⟩ := lists
    · obtain rfl := eq_of_mem_numbered mem below
      simpa using at_n
    · obtain rfl := eq_of_mem_numbered mem below
      simpa using at_n
  refine ⟨listed n, ?_⟩
  rintro ⟨ne, at_n⟩
  cases found : c.parent? ino with
  | some m => rw [(h.unique (listed m found).2 at_n rfl).2]
  | none =>
      have range := le_of_mem_numbered at_n
      have unlisted := List.find?_eq_none.mp found n
        (List.mem_range'_1.mpr ⟨range.1, by rw [h.size]; simp [rootIno]; omega⟩)
      have self : x = ⟨x.path.dropLast ++ [x.path.getLast ne], x.kind⟩ := by
        rw [List.dropLast_append_getLast]
      simp only [h.mem_children_iff at_n, decide_eq_true_eq, not_or, not_and, not_exists] at unlisted
      rw [self] at mem
      cases kind : x.kind with
      | directory => exact absurd (kind ▸ mem) (unlisted.1 trivial _)
      | file => exact absurd (kind ▸ mem) (unlisted.2 trivial _)

theorem toBytes_way {levels : Nat} {x : Place} {ino : Nat} (mem : (x, ino) ∈ numbered settled)
    (short : x.path.length ≤ levels) :
    (c.way levels ino).map ShortName.toBytes = x.path.map Utf8.encode := by
  induction levels generalizing x ino with
  | zero => rw [List.eq_nil_of_length_eq_zero (Nat.le_zero.mp short), way, List.map_nil, List.map_nil]
  | succ levels ih =>
      have parent := fun n => h.parent?_eq_some_iff (n := n) mem
      rw [way]
      obtain ⟨path, kind⟩ := x
      rcases List.eq_nil_or_concat' path with rfl | ⟨p, part, rfl⟩
      · cases found : c.parent? ino with
        | none => rfl
        | some n => exact absurd rfl ((parent n).mp found).1
      · obtain ⟨n, at_n⟩ := exists_mem_numbered (h.parent_mem (mem_of_mem_numbered mem))
        rw [(parent n).mpr ⟨by simp, by simpa using at_n⟩]
        have above := ih at_n (by simpa using short)
        simp [above, h.toBytes_nameOf mem]

theorem namesTo_eq (grown : Grown settled) {x : Place} {ino : Nat}
    (mem : (x, ino) ∈ numbered settled) : c.namesTo ino = x.path.map Utf8.encode :=
  h.toBytes_way mem (Nat.le_of_lt (grown.length_lt mem))

theorem member_eq (grown : Grown settled) {x : Place} {ino : Nat}
    (mem : (x, ino) ∈ numbered settled) : c.member ino = x.member := by
  have kind : (if c.isDirectory ino then .directory else .file) = x.kind := by
    have directory := h.isDirectory_iff mem
    cases hk : x.kind <;> simp [directory, hk]
  rw [member, Place.member, kind, h.namesTo_eq grown mem]

theorem members_eq (grown : Grown settled) : c.members = settled.map Place.member := by
  have size : c.nodes.size - 1 = settled.length := by rw [h.size, Nat.add_sub_cancel]
  have all : ∀ x ∈ settled.zipIdx 2, c.member x.2 = x.1.member := by
    intro x mem
    exact h.member_eq grown (List.mem_cons_of_mem (root, rootIno) mem)
  have places := List.map_congr_left all
  rw [members, size, ← List.zipIdx_map_snd, List.map_map]
  conv_rhs => rw [← List.zipIdx_map_fst 2 settled, List.map_map]
  exact places

end Represents

theorem ofMembers_of_settled {members : List (String × EntryKind)} {settled : List Place}
    (short : ∀ m ∈ members, (pathOf m).length ≤ maxDepth)
    (all : (members.flatMap wanted).foldlM settle? [] = some settled) :
    ∃ c, ofMembers members = .ok c ∧ Represents c settled := by
  rcases ofMembers_ends members with ⟨c, settled', ok, -, all', represents⟩ | ⟨how, -, misfit⟩
  · cases all.symm.trans all'
    exact ⟨c, ok, represents⟩
  · exact absurd (layout_iff.mpr ⟨short, settled, all⟩) misfit

/-- The members with more of them for directories that are there by then. Such a member may have a
slash at the end of its name or not. -/
inductive Repeats : List (String × EntryKind) → List (String × EntryKind) → Prop
  | nil : Repeats [] []
  | keep {ms ms' : List (String × EntryKind)} (m : String × EntryKind) :
      Repeats ms ms' → Repeats (ms ++ [m]) (ms' ++ [m])
  | again {ms ms' : List (String × EntryKind)} {m : String × EntryKind} {c : Catalogue}
      {ino : Ino} :
      Repeats ms ms' → ofMembers ms = .ok c → c.isDirectory ino → m.2 = .directory →
      (pathOf m).map Utf8.encode = c.namesTo ino → Repeats ms (ms' ++ [m])

namespace Repeats

variable {ms ms' : List (String × EntryKind)}

theorem settles_and_short (h : Repeats ms ms') {settled : List Place}
    (all : (ms.flatMap wanted).foldlM settle? [] = some settled)
    (short : ∀ m ∈ ms, (pathOf m).length ≤ maxDepth) :
    (ms'.flatMap wanted).foldlM settle? [] = some settled ∧
      ∀ m ∈ ms', (pathOf m).length ≤ maxDepth := by
  induction h generalizing settled with
  | nil => exact ⟨all, short⟩
  | keep m _ ih =>
      rw [List.forall_mem_append] at short ⊢
      rw [List.flatMap_append, List.foldlM_append, Option.bind_eq_bind,
        Option.bind_eq_some_iff] at all ⊢
      obtain ⟨before, first, last⟩ := all
      obtain ⟨first', short'⟩ := ih first short.1
      exact ⟨⟨before, first', last⟩, short', short.2⟩
  | @again ms ms' m c ino _ ok listed directory path ih =>
      obtain ⟨there, short'⟩ := ih all short
      obtain ⟨settled', all', represents, low⟩ := exists_settled_of_ofMembers ok
      cases all.symm.trans all'
      have grown := Grown.nil.settles_members all
      obtain ⟨x, mem⟩ := represents.exists_of_isDirectory listed
      have same : pathOf m = x.path := by
        rw [represents.namesTo_eq grown mem] at path
        exact (List.map_injective_iff.mpr fun _ _ => Utf8.encode_injective) path
      have kind := (represents.isDirectory_iff mem).mp listed
      have place : ⟨pathOf m, .directory⟩ ∈ root :: settled := by
        rw [same, ← kind]
        exact mem_of_mem_numbered mem
      have below_root : ⟨pathOf m, .directory⟩ ∈ settled :=
        List.mem_of_ne_of_mem (fun eq => pathOf_ne_nil m (congrArg Place.path eq)) place
      constructor
      · rw [List.flatMap_append, List.foldlM_append, there, List.flatMap_singleton]
        exact grown.settles_again_wanted directory place
      · rw [List.forall_mem_append, List.forall_mem_singleton]
        exact ⟨short', low _ below_root⟩

end Repeats

/-- The members of a catalogue describe it. -/
theorem ofMembers_members {members : List (String × EntryKind)} {c : Catalogue}
    (ok : ofMembers members = .ok c) :
    (∃ c', ofMembers c.members = .ok c' ∧ Same c c') ∧
      ∀ members', Repeats members members' → ∃ c', ofMembers members' = .ok c' ∧ Same c c' := by
  obtain ⟨settled, all, represents, low⟩ := exists_settled_of_ofMembers ok
  have grown := Grown.nil.settles_members all
  constructor
  · rw [represents.members_eq grown]
    have short : ∀ m ∈ settled.map Place.member, (pathOf m).length ≤ maxDepth := by
      intro m mem
      obtain ⟨x, hx, rfl⟩ := List.mem_map.mp mem
      rw [grown.pathOf_member hx]
      exact low x hx
    obtain ⟨c', ok', represents'⟩ := ofMembers_of_settled short grown.settled_members
    exact ⟨c', ok', represents.same represents'⟩
  · intro members' repeats
    obtain ⟨all', short'⟩ := repeats.settles_and_short all ((ofMembers_ok_iff members).mp ⟨c, ok⟩).short
    obtain ⟨c', ok', represents'⟩ := ofMembers_of_settled short' all'
    exact ⟨c', ok', represents.same represents'⟩

/-- The directories a and c come to be on the way to files before they are members themselves. -/
theorem ofMembers_members_implicit :
    let members : List (String × EntryKind) :=
      [("a/b", .file), ("c/d/", .directory), ("a/e", .file)]
    let rebuilt : List (String × EntryKind) :=
      [("a/", .directory), ("a/b", .file), ("c/", .directory), ("c/d/", .directory), ("a/e", .file)]
    let longer : List (String × EntryKind) :=
      [("a/b", .file), ("a", .directory), ("c/d/", .directory), ("a/e", .file)]
    ∃ c c' c'', ofMembers members = .ok c ∧ c.members = rebuilt ∧ ofMembers rebuilt = .ok c' ∧
      Same c c' ∧ Repeats members longer ∧ ofMembers longer = .ok c'' ∧ Same c c'' := by
  intro members rebuilt longer
  have described : (ofMembers members).map Catalogue.members = .ok rebuilt := by decide +kernel
  have first : (ofMembers [("a/b", .file)]).map (fun c => (c.isDirectory 2, c.namesTo 2)) =
      .ok (true, [[0x61]]) := by decide +kernel
  obtain ⟨c, ok, named⟩ := exists_of_map_ok described
  obtain ⟨c₁, ok₁, eq⟩ := exists_of_map_ok first
  obtain ⟨directory, names⟩ := Prod.mk.inj eq
  have repeats : Repeats members longer := by
    have before : Repeats [("a/b", .file)] [("a/b", .file)] := .keep _ .nil
    have path : (pathOf ("a", .directory)).map Utf8.encode = c₁.namesTo 2 := by
      rw [names]
      decide +kernel
    exact .keep _ (.keep _ (before.again ok₁ directory rfl path))
  obtain ⟨⟨c', ok', same⟩, others⟩ := ofMembers_members ok
  obtain ⟨c'', ok'', same'⟩ := others longer repeats
  exact ⟨c, c', c'', ok, named, named ▸ ok', same, repeats, ok'', same'⟩

end Catalogue

end SaveContainer
