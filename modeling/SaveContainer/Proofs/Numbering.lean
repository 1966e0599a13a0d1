import SaveContainer.Proofs.Places

/-!
Catalogues as numbered places. Main statement: a catalogue that represents some places represents
one more when that is inserted below its directory, with the next number.
-/

namespace SaveContainer

/-- The root and what is settled below it, with the numbers of the nodes. -/
def Place.numbered (settled : List Place) : List (Place × Ino) :=
  (root :: settled).zipIdx rootIno

def Place.IsChild (path : List (List Char)) (kind : EntryKind) (x : Place) : Prop :=
  x.kind = kind ∧ x.path ≠ [] ∧ x.path.dropLast = path

instance (path : List (List Char)) (kind : EntryKind) (x : Place) :
    Decidable (x.IsChild path kind) :=
  inferInstanceAs (Decidable (_ ∧ _))

/-- The numbers of what is directly below a path, in increasing order. -/
def Place.childNumbers (settled : List Place) (path : List (List Char)) (kind : EntryKind) :
    List Ino :=
  ((numbered settled).filter fun x => x.1.IsChild path kind).map Prod.snd

namespace Place

variable {settled : List Place} {path : List (List Char)} {kind : EntryKind} {x y : Place}
  {n : Nat}

theorem numbered_concat (settled : List Place) (x : Place) :
    numbered (settled ++ [x]) = numbered settled ++ [(x, settled.length + 2)] := by
  rw [numbered, ← List.cons_append, List.zipIdx_append, List.zipIdx_singleton, numbered]
  simp [rootIno, Nat.add_left_comm]

theorem mem_numbered_iff : (x, n) ∈ numbered settled ↔ 1 ≤ n ∧ (root :: settled)[n - 1]? = some x :=
  List.mk_mem_zipIdx_iff_le_and_getElem?_sub

theorem mem_of_mem_numbered (h : (x, n) ∈ numbered settled) : x ∈ root :: settled :=
  List.mem_of_getElem? (mem_numbered_iff.mp h).2

theorem le_of_mem_numbered (h : (x, n) ∈ numbered settled) : 1 ≤ n ∧ n ≤ settled.length + 1 := by
  obtain ⟨pos, at_n⟩ := mem_numbered_iff.mp h
  have lt := (List.getElem?_eq_some_iff.mp at_n).1
  simp at lt
  omega

theorem eq_of_mem_numbered (hx : (x, n) ∈ numbered settled) (hy : (y, n) ∈ numbered settled) :
    x = y := by
  have eq := (mem_numbered_iff.mp hx).2
  rw [(mem_numbered_iff.mp hy).2] at eq
  exact (Option.some.inj eq).symm

theorem exists_mem_numbered (h : x ∈ root :: settled) : ∃ n, (x, n) ∈ numbered settled := by
  obtain ⟨i, hi⟩ := List.getElem?_of_mem h
  exact ⟨i + 1, mem_numbered_iff.mpr ⟨Nat.succ_pos i, hi⟩⟩

theorem isChild_iff : x.IsChild path kind ↔ x.kind = kind ∧ ∃ part, x.path = path ++ [part] := by
  constructor
  · intro ⟨rfl, ne, rfl⟩
    exact ⟨rfl, x.path.getLast ne, (List.dropLast_append_getLast ne).symm⟩
  · intro ⟨rfl, part, eq⟩
    exact ⟨rfl, by simp [eq], by simp [eq]⟩

@[simp] theorem isChild_mk {p : List (List Char)} {part : List Char} {k : EntryKind} :
    (⟨p ++ [part], k⟩ : Place).IsChild path kind ↔ k = kind ∧ p = path := by
  simp [IsChild]

theorem childNumbers_concat (settled : List Place) (path : List (List Char)) (kind : EntryKind)
    (x : Place) : childNumbers (settled ++ [x]) path kind = childNumbers settled path kind ++
      if x.IsChild path kind then [settled.length + 2] else [] := by
  rw [childNumbers, numbered_concat, List.filter_append, List.map_append]
  by_cases h : x.IsChild path kind
  · simp [childNumbers, h]
  · simp [childNumbers, h]

theorem mem_childNumbers : n ∈ childNumbers settled path kind ↔
    ∃ part, (⟨path ++ [part], kind⟩, n) ∈ numbered settled := by
  simp only [childNumbers, List.mem_map, List.mem_filter, decide_eq_true_eq, isChild_iff]
  constructor
  · intro ⟨⟨⟨_, _⟩, _⟩, ⟨mem, same, part, eq⟩, number⟩
    cases same
    cases eq
    cases number
    exact ⟨part, mem⟩
  · intro ⟨part, mem⟩
    exact ⟨_, ⟨mem, rfl, part, rfl⟩, rfl⟩

theorem pairwise_childNumbers (settled : List Place) (path : List (List Char)) (kind : EntryKind) :
    (childNumbers settled path kind).Pairwise (· < ·) := by
  have increasing : ((numbered settled).map Prod.snd).Pairwise (· < ·) := by
    rw [numbered, List.zipIdx_map_snd]
    exact List.pairwise_lt_range'
  exact increasing.sublist (List.filter_sublist.map Prod.snd)

end Place

namespace Content

def ofKind : EntryKind → Content
  | .directory => emptyDirectory
  | .file => file

/-- The content of the node that stands for a place. -/
def ofPlace (settled : List Place) (x : Place) : Content :=
  match x.kind with
  | .directory => directory (Place.childNumbers settled x.path .directory).toArray
      (Place.childNumbers settled x.path .file).toArray
  | .file => file

section Concat

variable {settled : List Place} {p : List (List Char)} {part : List Char} {kind : EntryKind}

theorem ofPlace_concat_parent :
    ofPlace (settled ++ [⟨p ++ [part], kind⟩]) ⟨p, .directory⟩ =
      (ofPlace settled ⟨p, .directory⟩).addChild (settled.length + 2) kind := by
  cases kind <;> simp [ofPlace, Place.childNumbers_concat, addChild]

theorem ofPlace_concat_of_ne {x : Place} (ne : x.path ≠ p) :
    ofPlace (settled ++ [⟨p ++ [part], kind⟩]) x = ofPlace settled x := by
  simp [ofPlace, Place.childNumbers_concat, ne.symm]

theorem ofPlace_concat_self
    (fresh : ∀ kind, Place.childNumbers settled (p ++ [part]) kind = []) :
    ofPlace (settled ++ [⟨p ++ [part], kind⟩]) ⟨p ++ [part], kind⟩ = ofKind kind := by
  cases kind <;> simp [ofPlace, Place.childNumbers_concat, fresh, ofKind, emptyDirectory]

end Concat

end Content

namespace Catalogue

section Insert

variable (c : Catalogue) {parent : Nat} (name : ShortName) (kind : EntryKind)

theorem node?_insert_self (h : parent ≤ c.nodes.size) (pos : 1 ≤ parent) :
    (c.insert parent name kind).2.node? (c.nodes.size + 1) = some ⟨name, .ofKind kind⟩ := by
  have ne : parent - 1 ≠ c.nodes.size := by omega
  simp only [insert, node?, Array.getElem?_modify, if_neg ne, Array.getElem?_push_size]
  cases kind <;> rfl

theorem node?_insert_parent {n : CatalogueNode} (h : c.node? parent = some n) :
    (c.insert parent name kind).2.node? parent =
      some { n with content := n.content.addChild (c.nodes.size + 1) kind } := by
  cases parent with
  | zero => cases h
  | succ i =>
      have lt : i < c.nodes.size := (Array.getElem?_eq_some_iff.mp h).1
      have old : c.nodes[i]? = some n := h
      simp only [insert, node?, Array.getElem?_modify, Nat.add_sub_cancel, if_true]
      rw [Array.getElem?_push, if_neg (by omega), old]
      rfl

theorem node?_insert_of_ne {ino : Nat} (ne : ino ≠ parent) (le : ino ≤ c.nodes.size)
    (pos : 1 ≤ parent) : (c.insert parent name kind).2.node? ino = c.node? ino := by
  cases ino with
  | zero => rfl
  | succ i =>
      simp only [insert, node?, Array.getElem?_modify]
      rw [if_neg (by omega), Array.getElem?_push, if_neg (by omega)]

theorem number?_insert (parent' : Nat) (name' : ShortName) :
    (c.insert parent name kind).2.number? parent' name' =
      if parent = parent' ∧ name = name' then some (c.nodes.size + 1)
      else c.number? parent' name' := by
  simp only [insert, number?, Std.TreeMap.getElem?_insert, Std.LawfulEqCmp.compare_eq_iff_eq,
    ChildKey.mk.injEq]

theorem size_insert (parent : Nat) :
    (c.insert parent name kind).2.nodes.size = c.nodes.size + 1 := by
  simp [insert]

end Insert

open Place

/-- The nodes of the catalogue are the settled places in order, and a name below a node leads to
the place whose path is longer by this name. -/
structure Represents (c : Catalogue) (settled : List Place) : Prop where
  size : c.nodes.size = settled.length + 1
  distinct : ((root :: settled).map path).Nodup
  rooted : ∀ x ∈ settled, ∃ p part, x.path = p ++ [part] ∧ ⟨p, .directory⟩ ∈ root :: settled
  node : ∀ x ino, (x, ino) ∈ numbered settled → ∃ name : ShortName,
    name.toBytes = Utf8.encode (x.path.getLast?.getD []) ∧
      c.node? ino = some ⟨name, .ofPlace settled x⟩
  number : ∀ parent name ino, c.number? parent name = some ino ↔
    ∃ p part k, (p, parent) ∈ numbered settled ∧
      (⟨p.path ++ [part], k⟩, ino) ∈ numbered settled ∧ name.toBytes = Utf8.encode part

theorem represents_empty : Represents empty [] where
  size := rfl
  distinct := by simp
  rooted := by simp
  node := by
    intro x ino h
    obtain ⟨rfl, rfl⟩ : x = root ∧ ino = 1 := by simpa [numbered, rootIno] using h
    exact ⟨.empty, rfl, rfl⟩
  number := by
    intro parent name ino
    constructor
    · intro found
      simp [empty, number?] at found
    · intro ⟨p, part, k, _, mem, _⟩
      have eq := congrArg Place.path (List.mem_singleton.mp (mem_of_mem_numbered mem))
      simp [root] at eq

namespace Represents

variable {c : Catalogue} {settled : List Place} (h : Represents c settled)
include h

theorem unique {x y : Place} {n m : Nat} (hx : (x, n) ∈ numbered settled)
    (hy : (y, m) ∈ numbered settled) (eq : x.path = y.path) : x = y ∧ n = m := by
  obtain ⟨posn, at_n⟩ := mem_numbered_iff.mp hx
  obtain ⟨posm, at_m⟩ := mem_numbered_iff.mp hy
  have lt : n - 1 < ((root :: settled).map path).length := by
    rw [List.length_map]
    exact (List.getElem?_eq_some_iff.mp at_n).1
  have same : n - 1 = m - 1 := by
    apply (List.getElem?_inj lt h.distinct).mp
    rw [List.getElem?_map, List.getElem?_map, at_n, at_m, Option.map_some, Option.map_some, eq]
  rw [same, at_m] at at_n
  exact ⟨(Option.some.inj at_n).symm, by omega⟩

/-- What a path leads to has its parent among the settled places. -/
theorem parent_mem {p : List (List Char)} {part : List Char} {k : EntryKind}
    (mem : (⟨p ++ [part], k⟩ : Place) ∈ root :: settled) : ⟨p, .directory⟩ ∈ root :: settled := by
  cases List.mem_cons.mp mem with
  | inl eq => simp [root] at eq
  | inr mem =>
      obtain ⟨p', part', eq, parent⟩ := h.rooted _ mem
      obtain ⟨rfl, -⟩ := List.append_inj' eq rfl
      exact parent

theorem isDirectory_iff {x : Place} {ino : Nat} (mem : (x, ino) ∈ numbered settled) :
    c.isDirectory ino = true ↔ x.kind = .directory := by
  obtain ⟨name, -, node⟩ := h.node x ino mem
  rw [isDirectory, node, Option.map_some, Option.getD_some, Content.ofPlace]
  cases x.kind <;> simp [Content.isDirectory]

/-- A place that is not settled has no place below it either. -/
theorem childNumbers_fresh {p : List (List Char)} (fresh : ∀ y ∈ root :: settled, y.path ≠ p)
    (kind : EntryKind) : childNumbers settled p kind = [] := by
  rw [List.eq_nil_iff_forall_not_mem]
  intro n hn
  obtain ⟨part, mem⟩ := mem_childNumbers.mp hn
  exact fresh _ (h.parent_mem (mem_of_mem_numbered mem)) rfl

/-- The new place has nothing below it, so it is the parent of no place. -/
theorem parent_old {x q : Place} (fresh : ∀ y ∈ root :: settled, y.path ≠ x.path)
    {part : List Char} {k : EntryKind} {n ino : Nat}
    (hq : (q, n) ∈ numbered (settled ++ [x]))
    (hx : (⟨q.path ++ [part], k⟩, ino) ∈ numbered (settled ++ [x])) :
    (q, n) ∈ numbered settled := by
  rw [numbered_concat] at hq hx
  cases List.mem_append.mp hq with
  | inl old => exact old
  | inr new =>
      obtain ⟨rfl, -⟩ : q = x ∧ n = settled.length + 2 := by simpa using new
      cases List.mem_append.mp hx with
      | inl below =>
          exact absurd rfl (fresh ⟨q.path, .directory⟩ (h.parent_mem (mem_of_mem_numbered below)))
      | inr same =>
          have eq := congrArg (fun y => y.1.path) (List.mem_singleton.mp same)
          simp at eq

section Insert

variable {p : List (List Char)} {parent : Nat} {part : List Char} {name : ShortName}
  (kind : EntryKind) (at_parent : (⟨p, .directory⟩, parent) ∈ numbered settled)
  (hname : name.toBytes = Utf8.encode part) (fresh : ∀ y ∈ root :: settled, y.path ≠ p ++ [part])
include at_parent hname fresh

theorem insert_node {x : Place} {ino : Nat}
    (mem : (x, ino) ∈ numbered (settled ++ [⟨p ++ [part], kind⟩])) : ∃ n : ShortName,
      n.toBytes = Utf8.encode (x.path.getLast?.getD []) ∧
        (c.insert parent name kind).2.node? ino =
          some ⟨n, .ofPlace (settled ++ [⟨p ++ [part], kind⟩]) x⟩ := by
  obtain ⟨pos, le⟩ := le_of_mem_numbered at_parent
  rw [← h.size] at le
  rw [numbered_concat] at mem
  cases List.mem_append.mp mem with
  | inl old =>
      obtain ⟨n, hn, node⟩ := h.node x ino old
      refine ⟨n, hn, ?_⟩
      by_cases here : ino = parent
      · subst here
        obtain rfl := eq_of_mem_numbered old at_parent
        rw [node?_insert_parent c name kind node, Content.ofPlace_concat_parent, h.size]
      · have elsewhere : x.path ≠ p := fun eq => here (h.unique old at_parent eq).2
        have bound := (le_of_mem_numbered old).2
        rw [← h.size] at bound
        rw [node?_insert_of_ne c name kind here bound pos, node,
          Content.ofPlace_concat_of_ne elsewhere]
  | inr new =>
      obtain ⟨rfl, rfl⟩ : x = ⟨p ++ [part], kind⟩ ∧ ino = settled.length + 2 := by
        simpa using new
      refine ⟨name, by simpa using hname, ?_⟩
      have size : settled.length + 2 = c.nodes.size + 1 := by rw [h.size]
      rw [size, node?_insert_self c name kind le pos,
        Content.ofPlace_concat_self (h.childNumbers_fresh fresh)]

theorem insert_number (parent' : Nat) (name' : ShortName) (ino : Nat) :
    (c.insert parent name kind).2.number? parent' name' = some ino ↔
      ∃ q part' k, (q, parent') ∈ numbered (settled ++ [⟨p ++ [part], kind⟩]) ∧
        (⟨q.path ++ [part'], k⟩, ino) ∈ numbered (settled ++ [⟨p ++ [part], kind⟩]) ∧
        name'.toBytes = Utf8.encode part' := by
  have all : numbered (settled ++ [⟨p ++ [part], kind⟩]) = _ := numbered_concat _ _
  rw [number?_insert, h.size]
  constructor
  · intro found
    by_cases here : parent = parent' ∧ name = name'
    · obtain ⟨rfl, rfl⟩ := here
      rw [if_pos ⟨rfl, rfl⟩] at found
      cases found
      rw [all]
      exact ⟨_, part, kind, List.mem_append_left _ at_parent,
        List.mem_append_right _ (List.mem_singleton_self _), hname⟩
    · rw [if_neg here] at found
      obtain ⟨q, part', k, hq, hx, hname'⟩ := (h.number _ _ _).mp found
      rw [all]
      exact ⟨q, part', k, List.mem_append_left _ hq, List.mem_append_left _ hx, hname'⟩
  · intro ⟨q, part', k, hq, hx, hname'⟩
    have old := h.parent_old fresh hq hx
    rw [all] at hx
    cases List.mem_append.mp hx with
    | inl settled_x =>
        have found := (h.number _ _ _).mpr ⟨q, part', k, old, settled_x, hname'⟩
        rw [if_neg, found]
        intro ⟨rfl, rfl⟩
        obtain rfl := eq_of_mem_numbered old at_parent
        obtain rfl := Utf8.encode_injective (hname'.symm.trans hname)
        exact absurd rfl (fresh ⟨p ++ [part'], k⟩ (mem_of_mem_numbered settled_x))
    | inr new =>
        obtain ⟨eq, rfl⟩ := Prod.mk.inj (List.mem_singleton.mp new)
        obtain ⟨rfl, last⟩ := List.append_inj' (Place.mk.inj eq).1 rfl
        obtain rfl := List.singleton_inj.mp last
        obtain ⟨-, rfl⟩ := h.unique old at_parent rfl
        rw [if_pos ⟨rfl, ShortName.toBytes_injective (hname.trans hname'.symm)⟩]

theorem insert :
    Represents (c.insert parent name kind).2 (settled ++ [⟨p ++ [part], kind⟩]) where
  size := by rw [size_insert, h.size, List.length_append, List.length_singleton]
  distinct := by
    rw [← List.cons_append, List.map_append, List.map_singleton]
    refine List.nodup_append.mpr ⟨h.distinct, by simp, ?_⟩
    intro q hq q' hq' eq
    obtain ⟨y, hy, rfl⟩ := List.mem_map.mp hq
    exact fresh y hy (eq.trans (List.mem_singleton.mp hq'))
  rooted := by
    intro x hx
    cases List.mem_append.mp hx with
    | inl old =>
        obtain ⟨q, part', eq, mem⟩ := h.rooted x old
        exact ⟨q, part', eq, List.mem_append_left _ mem⟩
    | inr new =>
        obtain rfl := List.mem_singleton.mp new
        exact ⟨p, part, rfl, List.mem_append_left _ (mem_of_mem_numbered at_parent)⟩
  node := fun x ino mem => h.insert_node kind at_parent hname fresh mem
  number := h.insert_number kind at_parent hname fresh

end Insert

end Represents

end Catalogue

end SaveContainer
