import SaveContainer.Proofs.MemberShape
import SaveContainer.Proofs.Printing
import SaveContainer.Proofs.Tour

/-!
Printing a catalogue. Main statement: an archive that opens is always printed to its end, and every
node but the root has exactly one line, every directory is opened, listed and released exactly once.
-/

namespace SaveContainer

open Place

namespace Packed

variable {σ : Type} (c : Catalogue) (ino : Ino) (kind : EntryKind) (i : Nat)

@[simp] theorem hierarchy_ino : (hierarchy σ c).ino ino = ino := rfl

@[simp] theorem hierarchy_gotEntry : (hierarchy σ c).gotEntry ino kind i = [] := rfl

@[simp] theorem hierarchy_releasedList : (hierarchy σ c).releasedList ino kind = [] := rfl

@[simp] theorem hierarchy_released :
    (hierarchy σ c).released ino = [.event (.releaseDirectory .archive ino)] := rfl

end Packed

namespace Catalogue

variable (c : Catalogue)

/-- The line of a node with this path. -/
def line (path : List (List Char)) (ino : Ino) : List Char :=
  List.replicate (path.length - 1) ' ' ++ (if c.isDirectory ino then '+' else '-') ::
    path.getLast?.getD [] ++ ['\n']

def listEvents (depth : Nat) (ino : Ino) (kind : EntryKind) : List Event :=
  [.openList ino kind, .listed ino depth kind (c.children ino kind).length,
    .releaseList ino kind]

/-- What the log tells of a node when it is printed. -/
def nodeEvents (depth : Nat) (ino : Ino) : List Event :=
  if c.isDirectory ino then
    .openDirectory .archive ino :: c.listEvents depth ino .directory ++
      c.listEvents depth ino .file ++ [.releaseDirectory .archive ino]
  else [.file ino]

variable {σ : Type} {c : Catalogue} {settled : List Place}

theorem exists_settled_of_ofMembers {members : List (String × EntryKind)}
    (ok : ofMembers members = .ok c) : ∃ settled,
      (members.flatMap wanted).foldlM settle? [] = some settled ∧ Represents c settled ∧
      ∀ x ∈ settled, x.path.length ≤ maxDepth := by
  rcases ofMembers_ends members with ⟨_, settled, ok', layout, all, represents⟩ | ⟨_, failed, -⟩
  · cases ok.symm.trans ok'
    refine ⟨settled, all, represents, fun x hx => ?_⟩
    obtain ⟨-, -, rfl⟩ := (settleAll_eq_some_iff _ _).mp all
    obtain ⟨m, hm, mem⟩ := List.mem_flatMap.mp (List.mem_eraseDups.mp hx)
    exact (mem_wanted.mp mem).2.1.length_le.trans (layout.short m hm)
  · simp [failed] at ok

/-- Printing has passed these nodes, with these events besides theirs. -/
structure Toured (c : Catalogue) (nodes : List (Place × Ino)) (more : List Event) (s : σ × Sink)
    (o : Outcome (σ × Sink) Unit) : Prop where
  result : o.result = .ok ()
  state : o.state = s
  written : o.trace.written = Utf8.encode (nodes.flatMap fun x => c.line x.1.path x.2)
  events : o.trace.events.Perm (more ++ nodes.flatMap fun x => c.nodeEvents x.1.path.length x.2)

theorem Toured.seq {nodes nodes' : List (Place × Ino)} {more more' : List Event} {s : σ × Sink}
    {m : Act (σ × Sink) Unit} (first : Toured c nodes more s (m s)) (m' : Act (σ × Sink) Unit)
    (second : Toured c nodes' more' s (m' s)) :
    Toured c (nodes ++ nodes') (more ++ more') s ((do m; m') s) := by
  rw [Act.bind_of_ok first.result, first.state]
  refine ⟨second.result, second.state, ?_, ?_⟩
  · rw [Trace.written_append, first.written, second.written, List.flatMap_append,
      Utf8.encode_append]
  · rw [List.perm_iff_count]
    intro e
    have one := first.events.count_eq e
    have two := second.events.count_eq e
    simp only [Trace.events_append, List.flatMap_append, List.count_append] at one two ⊢
    omega

/-- What a list shows of a node. -/
def entry (c : Catalogue) (x : Place × Ino) : Entry :=
  ⟨c.nameOf x.2, x.2⟩

namespace Represents

variable (h : Represents c settled)
include h

section Directory

variable {p : List (List Char)} {ino : Nat}
  (at_ino : (⟨p, .directory⟩, ino) ∈ numbered settled)
include at_ino

theorem entries_eq (kind : EntryKind) :
    c.entries ino kind = (inside settled p kind).map c.entry := by
  rw [entries, h.children_eq at_ino, childNumbers, List.map_map]
  rfl

theorem packed_list_run (kind : EntryKind) (s : σ) :
    Packed.list c ino kind s = ⟨.ok ((inside settled p kind).map c.entry), s, []⟩ := by
  rw [Packed.list, if_pos ((h.isDirectory_iff at_ino).mpr rfl), h.entries_eq at_ino]
  rfl

theorem packed_subdirectory_run {x : Place × Ino} (mem : x ∈ inside settled p .directory)
    (s : σ) : Packed.subdirectory c ino (c.entry x).name s =
      ⟨.ok x.2, s, [.event (.openDirectory .archive x.2)]⟩ := by
  obtain ⟨part, n, rfl, at_n⟩ := exists_of_mem_inside mem
  have found : c.number? ino (c.nameOf n) = some n :=
    (h.number _ _ _).mpr ⟨_, part, .directory, at_ino, at_n, h.toBytes_nameOf at_n⟩
  have directory : c.isDirectory n = true := (h.isDirectory_iff at_n).mpr rfl
  rw [Packed.subdirectory, entry, found]
  simp only [directory, if_true]
  rfl

end Directory

theorem line_entry {p : List (List Char)} {kind : EntryKind} {x : Place × Ino}
    (mem : x ∈ inside settled p kind) :
    Tree.line p.length kind.marker (c.entry x).name = c.line x.1.path x.2 := by
  obtain ⟨part, n, rfl, at_n⟩ := exists_of_mem_inside mem
  have sign : (if c.isDirectory n then '+' else '-') = kind.marker := by
    have directory := h.isDirectory_iff at_n
    cases kind <;> simp_all [EntryKind.marker]
  simp [Tree.line, line, entry, sign, h.toBytes_nameOf at_n]

/-- One line is written, and the log says nothing of it. -/
theorem writeLine_entry {p : List (List Char)} {kind : EntryKind} {x : Place × Ino}
    (mem : x ∈ inside settled p kind) {s : σ × Sink} (takes : s.2.AcceptsAll) :
    let o := Hierarchy.writeLine p.length kind (c.entry x).name s
    o.result = .ok () ∧ o.state = s ∧ o.trace.events = [] ∧
      o.trace.written = Utf8.encode (c.line x.1.path x.2) := by
  obtain ⟨result, state, written⟩ := takes.writeAll
    (Utf8.encode (Tree.line p.length kind.marker (c.entry x).name))
  rw [Hierarchy.writeLine_run, ← h.line_entry mem]
  exact ⟨result, Prod.ext rfl state, Sink.writeAll_events _ _, written⟩

theorem toured_file {p : List (List Char)} {x : Place × Ino} (mem : x ∈ inside settled p .file)
    {s : σ × Sink} (takes : s.2.AcceptsAll) :
    Toured c [x] [] s (Hierarchy.printFile p.length (c.entry x) s) := by
  have line := h.writeLine_entry mem takes
  rw [Hierarchy.printFile_run]
  generalize Hierarchy.writeLine p.length .file (c.entry x).name s = o at line ⊢
  obtain ⟨result, state, events, written⟩ := line
  obtain ⟨part, n, rfl, at_n⟩ := exists_of_mem_inside mem
  have file : c.isDirectory n = false := by
    simpa using mt (h.isDirectory_iff at_n).mp (by simp)
  refine ⟨result, state, ?_, ?_⟩
  · simpa using written
  · rw [Trace.events_cons_event, events]
    simp [nodeEvents, file, entry]

end Represents

section Loop

variable (ino : Ino) (kind : EntryKind) {body : Entry → Act (σ × Sink) Unit} {s : σ × Sink}

theorem toured_loop {nodes : Place × Ino → List (Place × Ino)} (start : Nat)
    (inside : List (Place × Ino))
    (each : ∀ x ∈ inside, Toured c (nodes x) [] s (body (c.entry x) s)) :
    Toured c (inside.flatMap nodes) [] s
      ((Packed.hierarchy σ c).overEntries ino kind body start (inside.map c.entry) s) := by
  induction inside generalizing start with
  | nil => exact ⟨rfl, rfl, rfl, .nil⟩
  | cons x inside ih =>
      have first := each x (List.mem_cons_self ..)
      have rest := ih (start + 1) fun y hy => each y (List.mem_cons_of_mem x hy)
      exact first.seq ((Packed.hierarchy σ c).overEntries ino kind body (start + 1)
        (inside.map c.entry)) rest

end Loop

namespace Represents

variable (h : Represents c settled)
include h

theorem toured_listing {p : List (List Char)} {ino : Nat}
    (at_ino : (⟨p, .directory⟩, ino) ∈ numbered settled) {kind : EntryKind}
    {body : Entry → Act (σ × Sink) Unit} {s : σ × Sink} {nodes : List (Place × Ino)}
    (loop : Toured c nodes [] s ((Packed.hierarchy σ c).overEntries ino kind body 0
      ((inside settled p kind).map c.entry) s)) :
    Toured c nodes (c.listEvents p.length ino kind) s
      ((Packed.hierarchy σ c).forEntries p.length ino kind body s) := by
  have run : (Packed.hierarchy σ c).list ino kind s.1 = _ := h.packed_list_run at_ino kind s.1
  have count : (c.children ino kind).length = (inside settled p kind).length := by
    rw [h.children_eq at_ino, childNumbers, List.length_map, inside]
  rw [Hierarchy.forEntries_of_ok (congrArg Outcome.result run), run]
  refine ⟨loop.result, loop.state, by simpa using loop.written, ?_⟩
  -- The events of the list stand around those of its nodes, so both sides are counted.
  rw [List.perm_iff_count]
  intro e
  have same := loop.events.count_eq e
  simp only [Hierarchy.listEnd, loop.result, listEvents, count] at same ⊢
  simp [List.count_cons] at same ⊢
  omega

/-- What holds of printing a directory when `levels` levels are left, and none is below the deepest
level. -/
def TouredWithin (σ : Type) (c : Catalogue) (settled : List Place) (levels : Nat) : Prop :=
  ∀ p ino (s : σ × Sink), s.2.AcceptsAll → (⟨p, .directory⟩, ino) ∈ numbered settled →
    p.length + levels = maxDepth + 1 →
    Toured c (tour settled levels p)
      (c.listEvents p.length ino .directory ++ c.listEvents p.length ino .file) s
      ((Packed.hierarchy σ c).printWithin levels p.length ino s)

theorem toured_directory {levels : Nat} (below : TouredWithin σ c settled levels)
    {p : List (List Char)} {ino : Nat} (at_ino : (⟨p, .directory⟩, ino) ∈ numbered settled)
    (depth : p.length + (levels + 1) = maxDepth + 1) {x : Place × Ino}
    (mem : x ∈ inside settled p .directory) {s : σ × Sink} (takes : s.2.AcceptsAll) :
    Toured c (x :: tour settled levels x.1.path) [] s
      ((Packed.hierarchy σ c).printDirectory levels p.length ino (c.entry x) s) := by
  obtain ⟨t, k⟩ := s
  obtain ⟨result, state, events, written⟩ := h.writeLine_entry mem takes
  have run : (Packed.hierarchy σ c).subdirectory ino (c.entry x).name
      (Hierarchy.writeLine p.length .directory (c.entry x).name (t, k)).state.1 = _ :=
    h.packed_subdirectory_run at_ino mem _
  rw [Hierarchy.printDirectory_of_opened result (congrArg Outcome.result run), run, state]
  obtain ⟨part, n, rfl, at_n⟩ := exists_of_mem_inside mem
  have rest := below (p ++ [part]) n (t, k) takes at_n (by simp; omega)
  rw [List.length_append, List.length_singleton] at rest
  have directory : c.isDirectory n = true := (h.isDirectory_iff at_n).mpr rfl
  refine ⟨rest.result, rest.state, ?_, ?_⟩
  · simpa [written] using rest.written
  · rw [List.perm_iff_count]
    intro e
    have same := rest.events.count_eq e
    rw [List.flatMap_cons]
    simp only [nodeEvents.eq_1 c _ n, directory, if_true]
    simp [events, List.count_cons] at same ⊢
    omega

theorem touredWithin (short : ∀ x ∈ settled, x.path.length ≤ maxDepth) (levels : Nat) :
    TouredWithin σ c settled levels := by
  induction levels with
  | zero =>
      -- No settled directory is as deep as this, so the guard of the depth never stops the walk.
      intro p ino s _ at_ino depth
      cases List.mem_cons.mp (mem_of_mem_numbered at_ino) with
      | inl top => simp_all [root]
      | inr mem =>
          have le : p.length ≤ maxDepth := short _ mem
          omega
  | succ levels ih =>
      intro p ino s takes at_ino depth
      have directories := toured_loop ino .directory 0
        (inside settled p .directory) fun x hx => h.toured_directory ih at_ino depth hx takes
      have files := toured_loop (σ := σ) ino .file 0 (inside settled p .file)
        fun x hx => h.toured_file hx takes
      rw [List.flatMap_singleton'] at files
      rw [Hierarchy.printWithin_succ]
      exact (h.toured_listing at_ino directories).seq _ (h.toured_listing at_ino files)

theorem packed_root_run (s : σ) :
    (Packed.hierarchy σ c).root s = ⟨.ok rootIno, s, [.event (.openDirectory .archive rootIno)]⟩ := by
  have directory : c.isDirectory rootIno = true :=
    (h.isDirectory_iff (List.mem_cons_self ..)).mpr rfl
  change Packed.openDirectory c rootIno s = _
  rw [Packed.openDirectory, if_pos directory]
  rfl

/-- Printing the whole catalogue passes every node. -/
theorem toured_walk (short : ∀ x ∈ settled, x.path.length ≤ maxDepth) {s : σ × Sink}
    (takes : s.2.AcceptsAll) :
    let o := (Packed.hierarchy σ c).walk s
    o.result = .ok () ∧ o.state = s ∧
      o.trace.written = Utf8.encode ((tour settled (maxDepth + 1) []).flatMap fun x =>
        c.line x.1.path x.2) ∧
      o.trace.events.Perm ((numbered settled).flatMap fun x =>
        c.nodeEvents x.1.path.length x.2) := by
  obtain ⟨t, k⟩ := s
  have run := h.packed_root_run t
  have opened : ((Packed.hierarchy σ c).root.onFirst (t, k)).result = .ok rootIno :=
    congrArg Outcome.result run
  have inside := h.touredWithin short (maxDepth + 1) [] rootIno (t, k) takes
    (List.mem_cons_self ..) (Nat.zero_add _)
  have deep : ∀ x ∈ settled, x.path.length ≤ maxDepth + 1 :=
    fun x hx => Nat.le_succ_of_le (short x hx)
  have once := h.tour_perm deep
  have directory : c.isDirectory rootIno = true :=
    (h.isDirectory_iff (List.mem_cons_self ..)).mpr rfl
  have all : numbered settled = (root, rootIno) :: (numbered settled).tail := rfl
  rw [Hierarchy.walk, Act.bind_of_ok opened, Act.onFirst_run, run, Act.closing_run]
  refine ⟨inside.result, inside.state, ?_, ?_⟩
  · simpa [Hierarchy.printBelow] using inside.written
  · rw [List.perm_iff_count]
    intro e
    have same := inside.events.count_eq e
    have again := (once.flatMap_right fun x => c.nodeEvents x.1.path.length x.2).count_eq e
    rw [all, List.flatMap_cons, List.count_append, ← again]
    simp only [root, nodeEvents.eq_1 c _ rootIno, directory, if_true]
    simp [Hierarchy.printBelow, List.count_cons] at same ⊢
    omega

end Represents

end Catalogue

namespace Packed

open Catalogue

/-- What a member of an archive adds to a catalogue. -/
def added (m : Zip.Member) : String × EntryKind :=
  (m.name, if m.isDirectory then .directory else .file)

theorem addAll_cons (medium : Zip.Medium) (data : ByteArray) (m : Zip.Member)
    (listed : List Zip.Member) :
    addAll medium data (m :: listed) = (do
      Act.ofExcept ((m.checkHeader medium data).mapError Fault.zip)
      addMember (added m).1 (added m).2
      addAll medium data listed) := rfl

theorem addMembers_of_addAll {medium : Zip.Medium} {data : ByteArray} {listed : List Zip.Member}
    {c : Catalogue} (ok : (addAll medium data listed c).result = .ok ()) :
    let o := addMembers (listed.map added) c
    o.result = .ok () ∧ o.state = (addAll medium data listed c).state := by
  induction listed generalizing c with
  | nil => exact ⟨rfl, rfl⟩
  | cons m listed ih =>
      rw [addAll_cons] at ok ⊢
      obtain ⟨_, checked, ok'⟩ := Act.exists_of_bind_ok ok
      obtain ⟨_, one, rest⟩ := Act.exists_of_bind_ok ok'
      obtain ⟨result, state⟩ := ih rest
      have both : addMembers ((m :: listed).map added) c = _ := Act.bind_of_ok one
      rw [both, Act.bind_of_ok checked, Act.bind_of_ok one]
      exact ⟨result, state⟩

/-- What is opened is the tree of the members that the archive lists. -/
theorem ofMembers_of_opened {σ : Type} {medium : Zip.Medium} {data : ByteArray} {s : σ}
    {c : Catalogue} (opened : (ofBytes medium data s).result = .ok c) :
    ∃ listed : Array Zip.Member, Zip.members medium data = .ok listed ∧
      ofMembers (listed.toList.map added) = .ok c := by
  obtain ⟨listed, found, rest⟩ := Act.exists_of_bind_ok opened
  obtain ⟨c', reached, ended⟩ := Act.exists_of_bind_ok rest
  cases hz : Zip.members medium data with
  | error e =>
      rw [hz] at found
      cases found
  | ok listed' =>
      rw [hz] at found
      cases found
      refine ⟨listed, rfl, ?_⟩
      obtain rfl : c' = c := Except.ok.inj ended
      change (addAll medium data listed.toList empty).result.map (fun _ => _) = .ok c' at reached
      cases ok : (addAll medium data listed.toList empty).result with
      | error e =>
          rw [ok] at reached
          cases reached
      | ok u =>
          obtain ⟨result, state⟩ := addMembers_of_addAll ok
          rw [ok] at reached
          rw [ofMembers, result, state]
          exact reached

/-- Neither the levels nor the names of what is listed ever stop the walk, and it passes nothing
twice: every node but the root has its one line, and every directory is opened, gone through and
released once. -/
theorem text_of_opened {σ τ : Type} {medium : Zip.Medium} {data : ByteArray} {s : σ}
    {c : Catalogue} (opened : (ofBytes medium data s).result = .ok c) (t : τ) :
    ∃ listed : Array Zip.Member, Zip.members medium data = .ok listed ∧
      let nodes := (paths (listed.toList.map added)).zipIdx rootIno
      let o := (hierarchy τ c).text t
      c.nodes.size = nodes.length ∧
      (∃ shown : List (List (List Char) × Ino), shown.Perm nodes.tail ∧
        o.result = .ok (String.ofList (shown.flatMap fun x => c.line x.1 x.2))) ∧
      o.trace.events.Perm (nodes.flatMap fun x => c.nodeEvents x.1.length x.2) := by
  obtain ⟨listed, found, ok⟩ := ofMembers_of_opened opened
  refine ⟨listed, found, ?_⟩
  intro nodes o
  obtain ⟨settled, all, represents, short⟩ := exists_settled_of_ofMembers ok
  have numbers : nodes = (numbered settled).map fun x => (x.1.path, x.2) := by
    change (paths _).zipIdx rootIno = _
    rw [paths_eq all, List.zipIdx_map, numbered]
    rfl
  have takes : Sink.unlimited.AcceptsAll := by decide
  obtain ⟨result, state, written, events⟩ := represents.toured_walk short (s := (t, .unlimited)) takes
  have text : o = _ := Hierarchy.text_run t
  rw [Hierarchy.print_of_walked result] at text
  refine ⟨?_, ⟨(tour settled (maxDepth + 1) []).map fun x => (x.1.path, x.2), ?_, ?_⟩, ?_⟩
  · rw [represents.size, numbers, List.length_map, numbered, List.length_zipIdx, List.length_cons]
  · rw [numbers, ← List.map_tail]
    exact (represents.tour_perm fun x hx => Nat.le_succ_of_le (short x hx)).map _
  · have flushes : ((hierarchy τ c).walk (t, .unlimited)).state.2.flushFails = false := by
      rw [state]
      rfl
    simp [text, flushes, Except.map, Trace.text, written, List.flatMap_map]
  · rw [text, numbers, List.flatMap_map]
    simpa using events

/-- The bytes of an archive with the members `a/b` and `c/`. -/
def smallArchive : ByteArray :=
  let ownHeader : List UInt8 := [0x50, 0x4B, 3, 4] ++ List.replicate 26 0
  let header (place : UInt8) (name : List UInt8) : List UInt8 :=
    [0x50, 0x4B, 1, 2] ++ List.replicate 24 0 ++ [name.length.toUInt8, 0] ++
      List.replicate 12 0 ++ [place, 0, 0, 0] ++ name
  let ending : List UInt8 := [0x50, 0x4B, 5, 6, 0, 0, 0, 0, 2, 0, 2, 0, 97, 0, 0, 0, 60, 0, 0, 0, 0, 0]
  ⟨(ownHeader ++ ownHeader ++ header 0 [0x61, 0x2F, 0x62] ++ header 30 [0x63, 0x2F] ++
    ending).toArray⟩

theorem text_of_smallArchive :
    ∃ c, ((ofBytes .memory smallArchive : Act Unit Catalogue) ()).result = .ok c ∧
      c.nodes.size = 4 ∧ ∃ shown : List (List (List Char) × Ino),
        shown.Perm [([['a']], 2), ([['a'], ['b']], 3), ([['c']], 4)] ∧
        ((hierarchy Unit c).text ()).result =
          .ok (String.ofList (shown.flatMap fun x => c.line x.1 x.2)) := by
  cases opened : ((ofBytes .memory smallArchive : Act Unit Catalogue) ()).result with
  | error e =>
      have : ((ofBytes .memory smallArchive : Act Unit Catalogue) ()).result.toOption.isSome := by
        decide +kernel
      simp [opened, Except.toOption] at this
  | ok c =>
      obtain ⟨listed, found, size, ⟨shown, perm, text⟩, -⟩ := text_of_opened opened ()
      have nodes : (Zip.members .memory smallArchive).toOption.map (fun listed =>
          (paths (listed.toList.map added)).zipIdx rootIno) =
            some [([], 1), ([['a']], 2), ([['a'], ['b']], 3), ([['c']], 4)] := by
        decide +kernel
      rw [found] at nodes
      replace nodes : (paths (listed.toList.map added)).zipIdx rootIno = _ := Option.some.inj nodes
      rw [nodes] at size perm
      exact ⟨c, rfl, size, shown, perm, text⟩

end Packed

end SaveContainer
