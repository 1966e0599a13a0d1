import SaveContainer.Packed
import SaveContainer.Proofs.MemberLayout

/-!
What an archive that opens looks like. Main statement: its nodes stand for the paths on the ways to
its members, in the order in which these first appear, and each directory lists exactly what is
directly below it, in increasing order of the numbers.
-/

namespace SaveContainer

open Place

namespace Catalogue

namespace Represents

variable {c : Catalogue} {settled : List Place} (h : Represents c settled)
include h

theorem toBytes_nameOf {path : List (List Char)} {part : List Char} {k : EntryKind} {ino : Nat}
    (mem : (⟨path ++ [part], k⟩, ino) ∈ numbered settled) :
    (c.nameOf ino).toBytes = Utf8.encode part := by
  obtain ⟨name, hname, node⟩ := h.node _ ino mem
  rw [nameOf, node]
  simpa using hname

theorem children_eq {path : List (List Char)} {ino : Nat}
    (mem : (⟨path, .directory⟩, ino) ∈ numbered settled) (kind : EntryKind) :
    c.children ino kind = childNumbers settled path kind := by
  obtain ⟨name, -, node⟩ := h.node _ ino mem
  rw [children, node]
  cases kind <;> rfl

theorem mem_entries_iff {path : List (List Char)} {ino : Nat}
    (mem : (⟨path, .directory⟩, ino) ∈ numbered settled) (kind : EntryKind) (e : Entry) :
    e ∈ c.entries ino kind ↔ ∃ part, (⟨path ++ [part], kind⟩, e.ino) ∈ numbered settled ∧
      e.name.toBytes = Utf8.encode part := by
  simp only [entries, h.children_eq mem, List.mem_map, mem_childNumbers]
  constructor
  · intro ⟨child, ⟨part, below⟩, eq⟩
    subst eq
    exact ⟨part, below, h.toBytes_nameOf below⟩
  · intro ⟨part, below, name⟩
    refine ⟨e.ino, ⟨part, below⟩, ?_⟩
    have eq := ShortName.toBytes_injective ((h.toBytes_nameOf below).trans name.symm)
    rw [eq]

theorem pairwise_entries {path : List (List Char)} {ino : Nat}
    (mem : (⟨path, .directory⟩, ino) ∈ numbered settled) (kind : EntryKind) :
    (c.entries ino kind).Pairwise fun e e' => e.ino < e'.ino := by
  rw [entries, h.children_eq mem, List.pairwise_map]
  exact pairwise_childNumbers settled path kind

end Represents

/-- The root and the paths on the ways to the members, each where it first appears. -/
def paths (members : List (String × EntryKind)) : List (List (List Char)) :=
  [] :: (members.flatMap fun m => (pathOf m).inits.tail).eraseDups

/-- How a catalogue shows its members. The node with number `n` stands for the path at position
`n - 1`. -/
structure Shape (members : List (String × EntryKind)) (c : Catalogue) : Prop where
  size : c.nodes.size = (paths members).length
  name : ∀ path part ino, (path ++ [part], ino) ∈ (paths members).zipIdx rootIno →
    ∃ n, c.node? ino = some n ∧ n.name.toBytes = Utf8.encode part
  kind : ∀ path ino, (path, ino) ∈ (paths members).zipIdx rootIno →
    (c.isDirectory ino = true ↔ ∀ m ∈ members, m.2 = .file → pathOf m ≠ path)
  listed : ∀ path ino kind, (path, ino) ∈ (paths members).zipIdx rootIno →
    c.isDirectory ino = true → ∃ entries : List Entry,
      (∀ (σ : Type) (s : σ), Packed.list c ino kind s = ⟨.ok entries, s, []⟩) ∧
      (entries.Pairwise fun e e' => e.ino < e'.ino) ∧
      ∀ e, e ∈ entries ↔ ∃ part, (path ++ [part], e.ino) ∈ (paths members).zipIdx rootIno ∧
        (c.isDirectory e.ino = true ↔ kind = .directory) ∧ e.name.toBytes = Utf8.encode part

section Settled

variable {members : List (String × EntryKind)} {settled : List Place}
  (all : (members.flatMap wanted).foldlM settle? [] = some settled)
include all

theorem paths_eq : paths members = (root :: settled).map path := by
  obtain ⟨-, agree, rfl⟩ := (settleAll_eq_some_iff _ _).mp all
  rw [List.map_cons, map_path_eraseDups agree, List.map_flatMap]
  simp [paths, wanted, map_path_below, root]

theorem mem_paths_iff {path : List (List Char)} {ino : Nat} :
    (path, ino) ∈ (paths members).zipIdx rootIno ↔ ∃ k, (⟨path, k⟩, ino) ∈ numbered settled := by
  rw [paths_eq all, List.zipIdx_map, List.mem_map]
  constructor
  · intro ⟨⟨⟨_, k⟩, _⟩, mem, eq⟩
    cases eq
    exact ⟨k, mem⟩
  · intro ⟨k, mem⟩
    exact ⟨_, mem, rfl⟩

theorem directory_iff (distinct : ((root :: settled).map path).Nodup) {x : Place}
    (mem : x ∈ root :: settled) :
    x.kind = .directory ↔ ∀ m ∈ members, m.2 = .file → pathOf m ≠ x.path := by
  obtain ⟨-, -, rfl⟩ := (settleAll_eq_some_iff _ _).mp all
  constructor
  · intro directory m hm file eq
    have settled_m : ⟨pathOf m, m.2⟩ ∈ root :: (members.flatMap wanted).eraseDups :=
      List.mem_cons_of_mem _ (List.mem_eraseDups.mpr
        (List.mem_flatMap.mpr ⟨m, hm, self_mem_wanted m⟩))
    have same := List.inj_on_of_nodup_map distinct settled_m mem eq
    simp [← same, file] at directory
  · intro apart
    cases List.mem_cons.mp mem with
    | inl eq => rw [eq, root]
    | inr mem =>
        obtain ⟨m, hm, hx⟩ := List.mem_flatMap.mp (List.mem_eraseDups.mp mem)
        cases kind : x.kind with
        | directory => rfl
        | file =>
            obtain ⟨full, file⟩ := file_of_mem_wanted hx kind
            exact absurd full.symm (apart m hm file)

end Settled

theorem shape_of_ofMembers {members : List (String × EntryKind)} {c : Catalogue}
    (ok : ofMembers members = .ok c) : Shape members c := by
  obtain ⟨settled, all, represents⟩ : ∃ settled,
      (members.flatMap wanted).foldlM settle? [] = some settled ∧ Represents c settled := by
    rcases ofMembers_ends members with ⟨_, settled, ok', -, all, represents⟩ | ⟨how, failed, -⟩
    · cases ok.symm.trans ok'
      exact ⟨settled, all, represents⟩
    · simp [failed] at ok
  refine ⟨?_, ?_, ?_, ?_⟩
  · rw [represents.size, paths_eq all, List.length_map, List.length_cons]
  · intro path part ino mem
    obtain ⟨k, mem⟩ := (mem_paths_iff all).mp mem
    obtain ⟨name, hname, node⟩ := represents.node _ ino mem
    exact ⟨_, node, by simpa using hname⟩
  · intro path ino mem
    obtain ⟨k, mem⟩ := (mem_paths_iff all).mp mem
    rw [represents.isDirectory_iff mem]
    exact directory_iff all represents.distinct (mem_of_mem_numbered mem)
  · intro path ino kind mem directory
    obtain ⟨k, mem⟩ := (mem_paths_iff all).mp mem
    obtain rfl := (represents.isDirectory_iff mem).mp directory
    refine ⟨c.entries ino kind, ?_, represents.pairwise_entries mem kind, ?_⟩
    · intro σ s
      rw [Packed.list, if_pos directory]
      rfl
    · intro e
      rw [represents.mem_entries_iff mem]
      constructor
      · intro ⟨part, below, name⟩
        exact ⟨part, (mem_paths_iff all).mpr ⟨kind, below⟩, represents.isDirectory_iff below, name⟩
      · intro ⟨part, below, same, name⟩
        obtain ⟨k, below⟩ := (mem_paths_iff all).mp below
        rw [represents.isDirectory_iff below] at same
        have eq : k = kind := by cases k <;> cases kind <;> simp_all
        exact ⟨part, eq ▸ below, name⟩

/-- The directory c is on the way to another member before it is one itself. -/
theorem shape_of_mixed_members :
    let members : List (String × EntryKind) :=
      [("a/b", .file), ("c/d/", .directory), ("a/e", .file), ("c", .directory)]
    ∃ c, ofMembers members = .ok c ∧ Shape members c ∧ c.nodes.size = 6 := by
  intro members
  obtain ⟨c, ok⟩ : ∃ c, ofMembers members = .ok c := by
    cases h : ofMembers members with
    | ok c => exact ⟨c, rfl⟩
    | error e =>
        have : (ofMembers members).toOption.isSome = true := by decide +kernel
        simp [h, Except.toOption] at this
  have shape := shape_of_ofMembers ok
  exact ⟨c, ok, shape, shape.size.trans (by decide +kernel)⟩

end Catalogue

end SaveContainer
