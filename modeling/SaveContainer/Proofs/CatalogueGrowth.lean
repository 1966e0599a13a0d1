import SaveContainer.Proofs.Rebuilding

/-!
What holds of a catalogue while members are added to it, also after some of them were refused. Main
statement: its nodes, the lists of children and the look-up by name always agree, and a call only
adds to them; what a refused member leaves behind are directories on the way to it.
-/

namespace SaveContainer

open Place

namespace Place

variable {settled settled' wanted first : List Place} {p parts : List (List Char)}
  {part : List Char} {kind : EntryKind} {x : Place} {m n : Nat}

theorem exists_added (all : wanted.foldlM settle? settled = some settled') :
    ∃ added, settled' = settled ++ added ∧ ∀ x ∈ added, x ∈ wanted := by
  induction wanted generalizing settled with
  | nil =>
      cases all
      exact ⟨[], (List.append_nil _).symm, List.forall_mem_nil _⟩
  | cons y wanted ih =>
      rw [List.foldlM_cons, Option.bind_eq_bind, Option.bind_eq_some_iff] at all
      obtain ⟨next, step, rest⟩ := all
      obtain ⟨-, -, rfl⟩ := settle?_eq_some_iff.mp step
      obtain ⟨added, rfl, mem⟩ := ih rest
      have later : ∀ x ∈ added, x ∈ y :: wanted := fun x hx => List.mem_cons_of_mem y (mem x hx)
      split
      · exact ⟨added, rfl, later⟩
      · exact ⟨y :: added, by simp, List.forall_mem_cons.mpr ⟨List.mem_cons_self .., later⟩⟩

/-- A way that is broken off leads to a directory. -/
theorem prefix_below (start : first <+: below kind p parts) :
    first = below kind p parts ∨
      ∃ q, q <+: parts ∧ q ≠ parts ∧ first = below .directory p q := by
  induction parts generalizing p first with
  | nil => exact .inl (List.prefix_nil.mp start)
  | cons part rest ih =>
      cases first with
      | nil => exact .inr ⟨[], List.nil_prefix, List.cons_ne_nil _ _ |>.symm, rfl⟩
      | cons y first =>
          rw [below, List.cons_prefix_cons] at start
          obtain ⟨rfl, start⟩ := start
          rcases ih start with rfl | ⟨q, within, short, rfl⟩
          · exact .inl rfl
          · have more : rest ≠ [] := by
              rintro rfl
              exact short (List.prefix_nil.mp within)
            refine .inr ⟨part :: q, List.cons_prefix_cons.mpr ⟨rfl, within⟩, ?_, ?_⟩
            · simpa using short
            · rw [if_neg more, below, ite_self]

theorem Grown.number_lt (h : Grown settled) (above : (⟨p, .directory⟩, m) ∈ numbered settled)
    (at_n : (⟨p ++ [part], kind⟩, n) ∈ numbered settled) : m < n := by
  induction h with
  | nil => simp [numbered, root] at at_n
  | @add settled q last k grown _ _ _ fresh ih =>
      rw [numbered_concat, List.mem_append, List.mem_singleton] at above at_n
      rcases at_n with old | new
      · rcases above with old' | new'
        · exact ih old' old
        · -- The parent of a place that was there is not the new place.
          obtain ⟨rfl, -⟩ := Place.mk.inj (Prod.mk.inj new').1
          have mem := grown.directory_mem (mem_of_mem_numbered old) (List.concat_ne_nil _ q)
            (List.prefix_append _ [part]) (by simp)
          exact absurd rfl (fresh _ (List.mem_cons_of_mem root mem))
      · obtain ⟨eq, rfl⟩ := Prod.mk.inj new
        rcases above with old' | new'
        · exact Nat.lt_succ_of_le (le_of_mem_numbered old').2
        · have same := (Place.mk.inj (Prod.mk.inj new').1).1.trans (Place.mk.inj eq).1.symm
          simp at same

end Place

namespace Catalogue

/-- The names lead from the root to a node, from each directory to a child of it. -/
inductive Leads (c : Catalogue) : List ShortName → Ino → Prop
  | root : Leads c [] rootIno
  | child {names : List ShortName} {parent ino : Ino} {kind : EntryKind} :
      Leads c names parent → ino ∈ c.children parent kind →
      Leads c (names ++ [c.nameOf ino]) ino

/-- The nodes, the lists of their children and the look-up by name agree. -/
structure Coherent (c : Catalogue) : Prop where
  root : c.isDirectory rootIno
  kind : ∀ parent kind ino, ino ∈ c.children parent kind →
    ∃ n, c.node? ino = some n ∧ (n.content.isDirectory ↔ kind = .directory)
  root_unlisted : ∀ parent kind, rootIno ∉ c.children parent kind
  listed_once : ∀ ino, rootIno < ino → ino ≤ c.nodes.size → ∃ parent kind, parent < ino ∧
    ∀ parent' kind', (c.children parent' kind').count ino =
      if parent' = parent ∧ kind' = kind then 1 else 0
  increasing : ∀ parent kind, (c.children parent kind).Pairwise (· < ·)
  names_differ : ∀ parent,
    ((c.children parent .directory ++ c.children parent .file).map c.nameOf).Nodup
  number : ∀ parent name ino, c.number? parent name = some ino ↔
    (∃ kind, ino ∈ c.children parent kind) ∧ c.nameOf ino = name
  reached : ∀ ino, rootIno ≤ ino → ino ≤ c.nodes.size → ∃ names, c.Leads names ino
  short : ∀ names ino, c.Leads names ino → names.length ≤ maxDepth

/-- What was there stays with its number, and new children come last. -/
structure Grows (c c' : Catalogue) : Prop where
  node : ∀ ino n, c.node? ino = some n → ∃ n', c'.node? ino = some n' ∧ n'.name = n.name ∧
    n'.content.isDirectory = n.content.isDirectory
  children : ∀ parent kind, c.children parent kind <+: c'.children parent kind
  number : ∀ parent name ino, c.number? parent name = some ino →
    c'.number? parent name = some ino

namespace Represents

variable {c c' : Catalogue} {settled settled' : List Place} (h : Represents c settled)
include h

theorem mem_children {parent ino : Ino} {kind : EntryKind} : ino ∈ c.children parent kind ↔
    ∃ p part, (⟨p, .directory⟩, parent) ∈ numbered settled ∧
      (⟨p ++ [part], kind⟩, ino) ∈ numbered settled := by
  constructor
  · intro mem
    obtain ⟨⟨p, k⟩, at_parent⟩ : ∃ x, (x, parent) ∈ numbered settled := by
      cases parent with
      | zero => cases mem
      | succ i =>
          refine h.exists_place (Nat.succ_pos i) (Nat.lt_of_not_le fun beyond => ?_)
          have none : c.node? (i + 1) = none := Array.getElem?_eq_none beyond
          rw [children, none] at mem
          cases mem
    obtain ⟨rfl, part, at_ino⟩ := (h.mem_children_iff at_parent kind).mp mem
    exact ⟨p, part, at_parent, at_ino⟩
  · rintro ⟨p, part, at_parent, at_ino⟩
    exact (h.mem_children_iff at_parent kind).mpr ⟨rfl, part, at_ino⟩

theorem number?_iff {parent ino : Ino} {name : ShortName} : c.number? parent name = some ino ↔
    (∃ kind, ino ∈ c.children parent kind) ∧ c.nameOf ino = name := by
  rw [h.number]
  constructor
  · rintro ⟨⟨p, k'⟩, part, k, at_parent, at_ino, hname⟩
    obtain ⟨n, at_n⟩ := exists_mem_numbered (h.parent_mem (mem_of_mem_numbered at_ino))
    obtain ⟨eq, rfl⟩ := h.unique at_parent at_n rfl
    cases eq
    refine ⟨⟨k, h.mem_children.mpr ⟨p, part, at_parent, at_ino⟩⟩, ?_⟩
    exact ShortName.toBytes_injective ((h.toBytes_nameOf at_ino).trans hname.symm)
  · rintro ⟨⟨kind, mem⟩, rfl⟩
    obtain ⟨p, part, at_parent, at_ino⟩ := h.mem_children.mp mem
    exact ⟨_, part, kind, at_parent, at_ino, h.toBytes_nameOf at_ino⟩

/-- Each node is in one list only, and under a name of its own. -/
theorem eq_of_mem_children {parent parent' ino ino' : Ino} {kind kind' : EntryKind}
    (mem : ino ∈ c.children parent kind) (mem' : ino' ∈ c.children parent' kind')
    (same : ino = ino' ∨ parent = parent' ∧ c.nameOf ino = c.nameOf ino') :
    ino = ino' ∧ parent = parent' ∧ kind = kind' := by
  obtain ⟨p, part, at_parent, at_ino⟩ := h.mem_children.mp mem
  obtain ⟨p', part', at_parent', at_ino'⟩ := h.mem_children.mp mem'
  rcases same with rfl | ⟨rfl, name⟩
  · obtain ⟨eq, rfl⟩ := Place.mk.inj (eq_of_mem_numbered at_ino at_ino')
    obtain ⟨rfl, -⟩ := List.append_inj' eq rfl
    exact ⟨rfl, (h.unique at_parent at_parent' rfl).2, rfl⟩
  · cases eq_of_mem_numbered at_parent at_parent'
    have bytes := congrArg ShortName.toBytes name
    rw [h.toBytes_nameOf at_ino, h.toBytes_nameOf at_ino'] at bytes
    cases Utf8.encode_injective bytes
    obtain ⟨eq, rfl⟩ := h.unique at_ino at_ino' rfl
    exact ⟨rfl, rfl, (Place.mk.inj eq).2⟩

theorem exists_of_leads {names : List ShortName} {ino : Ino} (leads : c.Leads names ino) :
    ∃ x, (x, ino) ∈ numbered settled ∧
      names.map ShortName.toBytes = x.path.map Utf8.encode := by
  induction leads with
  | root => exact ⟨root, List.mem_cons_self .., rfl⟩
  | @child names parent ino kind _ mem ih =>
      obtain ⟨x, at_parent, eq⟩ := ih
      obtain ⟨p, part, at_parent', at_ino⟩ := h.mem_children.mp mem
      cases eq_of_mem_numbered at_parent at_parent'
      exact ⟨_, at_ino, by simp [eq, h.toBytes_nameOf at_ino]⟩

theorem exists_leads {x : Place} {ino : Ino} (at_ino : (x, ino) ∈ numbered settled) :
    ∃ names, c.Leads names ino ∧ names.map ShortName.toBytes = x.path.map Utf8.encode := by
  obtain ⟨path, kind⟩ := x
  induction path using List.reverseRecOn generalizing kind ino with
  | nil =>
      have top : (root, rootIno) ∈ numbered settled := List.mem_cons_self ..
      obtain rfl := (h.unique at_ino top rfl).2
      exact ⟨[], .root, rfl⟩
  | append_singleton p part ih =>
      obtain ⟨parent, at_parent⟩ := exists_mem_numbered (h.parent_mem (mem_of_mem_numbered at_ino))
      obtain ⟨names, leads, eq⟩ := ih _ at_parent
      have mem := h.mem_children.mpr ⟨p, part, at_parent, at_ino⟩
      exact ⟨_, leads.child mem, by simp [eq, h.toBytes_nameOf at_ino]⟩

theorem increasing (parent : Ino) (kind : EntryKind) :
    (c.children parent kind).Pairwise (· < ·) := by
  by_cases empty : c.children parent kind = []
  · rw [empty]
    exact .nil
  · obtain ⟨ino, mem⟩ := List.exists_mem_of_ne_nil _ empty
    obtain ⟨p, part, at_parent, -⟩ := h.mem_children.mp mem
    rw [h.children_eq at_parent]
    exact pairwise_childNumbers settled p kind

theorem nodup_children (parent : Ino) (kind : EntryKind) : (c.children parent kind).Nodup :=
  (h.increasing parent kind).imp Nat.ne_of_lt

theorem names_differ (parent : Ino) :
    ((c.children parent .directory ++ c.children parent .file).map c.nameOf).Nodup := by
  have mem_iff (ino : Ino) : ino ∈ c.children parent .directory ++ c.children parent .file →
      ∃ kind, ino ∈ c.children parent kind := by
    rw [List.mem_append]
    exact fun mem => mem.elim (fun mem => ⟨_, mem⟩) fun mem => ⟨_, mem⟩
  refine List.Nodup.map_on ?_ ?_
  · intro ino mem ino' mem' name
    obtain ⟨kind, mem⟩ := mem_iff ino mem
    obtain ⟨kind', mem'⟩ := mem_iff ino' mem'
    exact (h.eq_of_mem_children mem mem' (.inr ⟨rfl, name⟩)).1
  · refine List.nodup_append.mpr ⟨h.nodup_children _ _, h.nodup_children _ _, ?_⟩
    intro ino mem ino' mem' same
    cases (h.eq_of_mem_children mem mem' (.inl same)).2.2

theorem coherent (grown : Grown settled) (short : ∀ x ∈ settled, x.path.length ≤ maxDepth) :
    c.Coherent where
  root := (h.isDirectory_iff (List.mem_cons_self ..)).mpr rfl
  kind := by
    intro parent kind ino mem
    obtain ⟨p, part, -, at_ino⟩ := h.mem_children.mp mem
    obtain ⟨name, -, node⟩ := h.node _ ino at_ino
    refine ⟨_, node, ?_⟩
    cases kind <;> simp [Content.ofPlace, Content.isDirectory]
  root_unlisted := by
    intro parent kind mem
    obtain ⟨p, part, -, at_root⟩ := h.mem_children.mp mem
    have top : (root, rootIno) ∈ numbered settled := List.mem_cons_self ..
    have eq := congrArg Place.path (eq_of_mem_numbered at_root top)
    simp [root] at eq
  listed_once := by
    intro ino pos le
    obtain ⟨⟨path, kind⟩, at_ino⟩ := h.exists_place (Nat.le_of_lt pos) le
    rcases List.eq_nil_or_concat' path with rfl | ⟨p, part, rfl⟩
    · have top : (root, rootIno) ∈ numbered settled := List.mem_cons_self ..
      exact absurd (h.unique at_ino top rfl).2 (Nat.ne_of_gt pos)
    · obtain ⟨parent, at_parent⟩ := exists_mem_numbered (h.parent_mem (mem_of_mem_numbered at_ino))
      have mem := h.mem_children.mpr ⟨p, part, at_parent, at_ino⟩
      refine ⟨parent, kind, grown.number_lt at_parent at_ino, fun parent' kind' => ?_⟩
      rw [(h.nodup_children parent' kind').count]
      refine if_congr ⟨fun mem' => ?_, ?_⟩ rfl rfl
      · exact (h.eq_of_mem_children mem' mem (.inl rfl)).2
      · rintro ⟨rfl, rfl⟩
        exact mem
  increasing := h.increasing
  names_differ := h.names_differ
  number _ _ _ := h.number?_iff
  reached := by
    intro ino pos le
    obtain ⟨x, at_ino⟩ := h.exists_place pos le
    obtain ⟨names, leads, -⟩ := h.exists_leads at_ino
    exact ⟨names, leads⟩
  short := by
    intro names ino leads
    obtain ⟨x, at_ino, eq⟩ := h.exists_of_leads leads
    have length := congrArg List.length eq
    rw [List.length_map, List.length_map] at length
    rw [length]
    rcases List.mem_cons.mp (mem_of_mem_numbered at_ino) with rfl | mem
    · exact Nat.zero_le _
    · exact short x mem

theorem grows (h' : Represents c' settled') (more : settled <+: settled') : c.Grows c' := by
  have all : numbered settled <+: numbered settled' := by
    obtain ⟨added, rfl⟩ := more
    rw [numbered, numbered, ← List.cons_append, List.zipIdx_append]
    exact List.prefix_append _ _
  refine ⟨?_, ?_, ?_⟩
  · intro ino n found
    obtain ⟨x, at_ino⟩ : ∃ x, (x, ino) ∈ numbered settled := by
      cases ino with
      | zero => cases found
      | succ i => exact h.exists_place (Nat.succ_pos i) (Array.getElem?_eq_some_iff.mp found).1
    obtain ⟨name, hname, node⟩ := h.node x ino at_ino
    obtain ⟨name', hname', node'⟩ := h'.node x ino (all.subset at_ino)
    cases found.symm.trans node
    refine ⟨_, node', ShortName.toBytes_injective (hname'.trans hname.symm), ?_⟩
    unfold Content.ofPlace
    cases x.kind <;> rfl
  · intro parent kind
    by_cases empty : c.children parent kind = []
    · rw [empty]
      exact List.nil_prefix
    · obtain ⟨ino, mem⟩ := List.exists_mem_of_ne_nil _ empty
      obtain ⟨p, part, at_parent, -⟩ := h.mem_children.mp mem
      rw [h.children_eq at_parent, h'.children_eq (all.subset at_parent)]
      exact (all.filter _).map Prod.snd
  · intro parent name ino found
    obtain ⟨x, part, k, at_parent, at_ino, hname⟩ := (h.number _ _ _).mp found
    exact (h'.number _ _ _).mpr
      ⟨x, part, k, all.subset at_parent, all.subset at_ino, hname⟩

end Represents

/-- What the calls up to now have settled, whatever became of each of them. -/
structure Stands (c : Catalogue) (settled : List Place) : Prop where
  represents : Represents c settled
  grown : Grown settled
  short : ∀ x ∈ settled, x.path.length ≤ maxDepth

theorem stands_empty : Stands empty [] :=
  ⟨represents_empty, .nil, List.forall_mem_nil _⟩

theorem addMember_of_deep {m : String × EntryKind} (deep : maxDepth < (pathOf m).length)
    (c : Catalogue) : addMember m.1 m.2 c =
      ⟨.error (.corrupt (.memberTooDeep (pathOf m).length)), c, []⟩ := by
  rw [addMember_eq, if_pos deep]
  rfl

namespace Stands

variable {c : Catalogue} {settled settled' added : List Place} (h : Stands c settled)
include h

theorem coherent : c.Coherent :=
  h.represents.coherent h.grown h.short

/-- A member that is not too deep settles its way, or a part of the way to it. -/
theorem settles {m : String × EntryKind} {kind : EntryKind} {q : List (List Char)}
    {c' : Catalogue} (start : q <+: pathOf m) (low : (pathOf m).length ≤ maxDepth)
    (all : (below kind [] q).foldlM settle? settled = some settled')
    (represents : Represents c' settled') :
    ∃ added, settled' = settled ++ added ∧ Stands c' (settled ++ added) ∧
      ∀ x ∈ added, x ∈ below kind [] q := by
  obtain ⟨added, rfl, within⟩ := exists_added all
  have slashless : ∀ part ∈ q, '/' ∉ part :=
    fun part mem => slash_notMem_of_mem_pathOf (start.subset mem)
  refine ⟨added, rfl, ⟨represents, ?_, ?_⟩, within⟩
  · exact h.grown.settles_below (List.mem_cons_self ..) slashless all
  · refine List.forall_mem_append.mpr ⟨h.short, fun x mem => ?_⟩
    obtain ⟨way, -, along, rfl⟩ := mem_below.mp (within x mem)
    exact (along.trans start).length_le.trans low

/-- One more call settles more places. If it is refused, they are on the way to the member. -/
theorem addMember (m : String × EntryKind) :
    let o := addMember m.1 m.2 c
    ∃ added, Stands o.state (settled ++ added) ∧ ∀ e, o.result = .error e →
      ∀ x ∈ added, x.kind = .directory ∧ x.path <+: pathOf m ∧ x.path ≠ pathOf m := by
  intro o
  by_cases deep : maxDepth < (pathOf m).length
  · have refused : o = _ := addMember_of_deep deep c
    rw [refused]
    exact ⟨[], by simpa using h, fun _ _ => List.forall_mem_nil _⟩
  · have low := Nat.le_of_not_lt deep
    have ends : Settles settled _ _ o := addMember_settles m h.represents
    generalize o = o' at ends
    cases ends with
    | whole _ all represents =>
        obtain ⟨added, -, stands, -⟩ := h.settles List.prefix_rfl low all represents
        exact ⟨added, stands, nofun⟩
    | @refused _ _ _ first _ start some represents none =>
        rcases prefix_below start with rfl | ⟨q, along, short, rfl⟩
        · cases some.symm.trans (none low)
        · obtain ⟨added, -, stands, within⟩ := h.settles along low some represents
          refine ⟨added, stands, fun _ _ x mem => ?_⟩
          obtain ⟨way, -, start, rfl⟩ := mem_below.mp (within x mem)
          refine ⟨ite_self _, start.trans along, fun whole => short ?_⟩
          have whole : way = pathOf m := whole
          exact along.eq_of_length_le (whole ▸ start).length_le

end Stands

/-- The catalogue that these members come to when each is added, refused or not. -/
def ofCalls (members : List (String × EntryKind)) : Catalogue :=
  members.foldl (fun c m => (addMember m.1 m.2 c).state) empty

theorem exists_stands (members : List (String × EntryKind)) :
    ∃ settled, Stands (ofCalls members) settled := by
  induction members using List.reverseRecOn with
  | nil => exact ⟨[], stands_empty⟩
  | append_singleton members m ih =>
      obtain ⟨settled, stands⟩ := ih
      obtain ⟨added, stands, -⟩ := stands.addMember m
      rw [ofCalls, List.foldl_append]
      exact ⟨_, stands⟩

/-- However many members were added or refused before, one more call leaves the catalogue coherent
and only adds to it. A refused member adds directories that are on the way to it. -/
theorem coherent_of_calls (before : List (String × EntryKind)) (m : String × EntryKind) :
    let c := ofCalls before
    let o := addMember m.1 m.2 c
    c.Coherent ∧ o.state.Coherent ∧ c.Grows o.state ∧
      ∀ e, o.result = .error e → ∀ ino, c.nodes.size < ino → ino ≤ o.state.nodes.size →
        o.state.isDirectory ino ∧ ∃ names q, o.state.Leads names ino ∧ q <+: pathOf m ∧
          q ≠ pathOf m ∧ names.map ShortName.toBytes = q.map Utf8.encode := by
  intro c o
  obtain ⟨settled, stands⟩ := exists_stands before
  obtain ⟨added, stands', left⟩ := stands.addMember m
  have h' := stands'.represents
  refine ⟨stands.coherent, stands'.coherent,
    stands.represents.grows h' (List.prefix_append ..), fun e refused ino new le => ?_⟩
  have size : c.nodes.size = settled.length + 1 := stands.represents.size
  obtain ⟨x, at_ino⟩ := h'.exists_place (Nat.one_le_of_lt new) le
  have mem : x ∈ added := by
    rw [mem_numbered_iff, ← List.cons_append, List.getElem?_append_right (by simp; omega)] at at_ino
    exact List.mem_of_getElem? at_ino.2
  obtain ⟨directory, start, short⟩ := left e refused x mem
  obtain ⟨names, leads, eq⟩ := h'.exists_leads at_ino
  exact ⟨(h'.isDirectory_iff at_ino).mpr directory, names, x.path, leads, start, short, eq⟩

/-- The member is refused at its third component, when two directories are there for it. -/
theorem coherent_of_calls_refused :
    let c := ofCalls [("a", .file)]
    let o := addMember "x/y/../z" .file c
    o.result = .error (.corrupt (.badComponent "x/y/../z")) ∧ c.nodes.size = 2 ∧
      o.state.nodes.size = 4 ∧ o.state.Coherent ∧ o.state.isDirectory 4 ∧ ∃ names q,
        o.state.Leads names 4 ∧ q <+: pathOf ("x/y/../z", .file) ∧
        q ≠ pathOf ("x/y/../z", .file) ∧ names.map ShortName.toBytes = q.map Utf8.encode := by
  intro c o
  have refused : o.result = .error (.corrupt (.badComponent "x/y/../z")) := by decide +kernel
  have before : c.nodes.size = 2 := by decide +kernel
  have after : o.state.nodes.size = 4 := by decide +kernel
  obtain ⟨-, coherent, -, left⟩ := coherent_of_calls [("a", .file)] ("x/y/../z", .file)
  obtain ⟨directory, way⟩ := left _ refused 4 (by rw [before]; decide) (by rw [after])
  exact ⟨refused, before, after, coherent, directory, way⟩

end Catalogue

end SaveContainer
