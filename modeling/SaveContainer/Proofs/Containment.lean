import SaveContainer.Extracted
import SaveContainer.Proofs.Act
import SaveContainer.Proofs.Lookup

/-!
Which directories of an extracted container can be opened. Main statement: a name that is one
component of a path opens the directory that stands under it, and nothing else; so as long as the
disk stays as it is, handles that are opened with such names never leave the root. With any other
text they do: the text is hung below the path as it is.
-/

namespace SaveContainer

/-- The name is text, and the text is one component of a path. -/
structure ShortName.IsComponent (n : ShortName) : Prop where
  text : Utf8.encode (Utf8.lossy n.toBytes) = n.toBytes
  isName : Path.IsName n.toBytes

theorem ShortName.IsComponent.ofText_display {n : ShortName} (h : n.IsComponent) :
    Path.ofText n.display = ⟨n.toBytes⟩ := by
  rw [Path.ofText, ShortName.display, String.toList_ofList, h.text]

namespace PathTable

/-- The root has its number, and all paths of the table are as they should be. -/
structure Holds (t : PathTable) (root : Path) (P : Path → Prop) : Prop where
  root : t.path? rootIno = some root
  all : ∀ ino q, t.path? ino = some q → P q

variable {t : PathTable} {root q : Path} {P : Path → Prop}

theorem path?_push (paths : Array Path) (numbers : Std.TreeMap (List FileName) Ino) (q : Path)
    (ino : Ino) : path? ⟨paths.push q, numbers⟩ ino =
      if ino = paths.size + 1 then some q else path? ⟨paths, numbers⟩ ino := by
  cases ino with
  | zero => rfl
  | succ n => simp [path?, Array.getElem?_push]

theorem Holds.assign (h : t.Holds root P) (hq : P q) : (t.assign q).2.Holds root P := by
  unfold PathTable.assign
  split
  · exact h
  · refine ⟨?_, fun ino r found => ?_⟩
    · have first : 0 < t.paths.size := (Array.getElem?_eq_some_iff.mp h.root).1
      have old : rootIno ≠ t.paths.size + 1 := Nat.ne_of_lt (Nat.succ_lt_succ first)
      rw [path?_push, if_neg old]
      exact h.root
    · rw [path?_push] at found
      split at found
      · cases found
        exact hq
      · exact h.all ino r found

theorem holds_ofRoot (hroot : P root) : (ofRoot root).Holds root P := by
  have only : ofRoot root = ⟨#[].push root, (∅ : Std.TreeMap _ _).insert root.key 1⟩ := by
    simp [ofRoot, PathTable.assign, number?, empty]
  rw [only]
  refine ⟨rfl, fun ino q found => ?_⟩
  rw [path?_push] at found
  split at found
  · cases found
    exact hroot
  · cases ino <;> simp [path?] at found

end PathTable

namespace Extracted

theorem subdirectory_run (disk : Disk) (d : ExtractedDirectory) (name : ShortName)
    (t : PathTable) :
    let path := d.path.join (Path.ofText name.display)
    subdirectory disk d name t =
      if disk.isRealDirectory path then
        ⟨.ok ⟨path, (t.assign path).1⟩, (t.assign path).2,
          [.event (.openDirectory .directory (t.assign path).1)]⟩
      else ⟨.error (.missing (.subdirectory name d.ino)), t, []⟩ := by
  simp only [subdirectory]
  split <;> rfl

theorem openRoot_ok {disk : Disk} {p : Path} {t : PathTable}
    (h : (openRoot disk p ()).result = .ok t) : t = PathTable.ofRoot p ∧ disk.isDirectory p := by
  unfold openRoot at h
  unfold Disk.isDirectory
  cases hn : disk.node p with
  | error e =>
      rw [hn] at h
      cases h
  | ok n =>
      rw [hn] at h
      cases n with
      | directory es =>
          cases h
          exact ⟨rfl, rfl⟩
      | _ => cases h

/-- How a directory is told from other entries when it is opened by its number. -/
def canOpen (disk : Disk) (ino : Ino) (path : Path) : Bool :=
  if ino = rootIno then disk.isDirectory path else disk.isRealDirectory path

theorem openDirectory_run (disk : Disk) (ino : Ino) (t : PathTable) :
    openDirectory disk ino t =
      match t.path? ino with
      | none => ⟨.error (.missing (.entry ino)), t, []⟩
      | some path =>
        if canOpen disk ino path then
          ⟨.ok ⟨path, ino⟩, t, [.event (.openDirectory .directory ino)]⟩
        else ⟨.error (.missing (.notADirectory ino)), t, []⟩ := by
  simp only [openDirectory]
  rw [Act.get_bind]
  cases t.path? ino with
  | none => rfl
  | some path =>
      unfold canOpen
      by_cases root : ino = rootIno
      · simp only [if_pos root]
        split <;> rfl
      · simp only [if_neg root]
        split <;> rfl

theorem openDirectory_root {disk : Disk} {p : Path} {t : PathTable}
    (root : t.path? rootIno = some p) (directory : disk.isDirectory p) :
    openDirectory disk rootIno t =
      ⟨.ok ⟨p, rootIno⟩, t, [.event (.openDirectory .directory rootIno)]⟩ := by
  have can : canOpen disk rootIno p = true := directory
  rw [openDirectory_run, root]
  simp only [can, if_true]

theorem list_run (disk : Disk) (d : ExtractedDirectory) (kind : EntryKind) (t : PathTable) :
    list disk d kind t =
      match disk.listing d.path with
      | .error cause => ⟨.error (.io cause), t, []⟩
      | .ok es => takeEntries d ((es.filter fun e => kindOf e.2 = kind).map Prod.fst) t := by
  cases found : disk.listing d.path with
  | error cause =>
      have failed : (Act.ofExcept ((disk.listing d.path).mapError Fault.io) t).result = _ :=
        congrArg (Except.mapError Fault.io) found
      rw [list, Act.bind_of_error failed]
      rfl
  | ok es =>
      have done : (Act.ofExcept ((disk.listing d.path).mapError Fault.io) t).result = _ :=
        congrArg (Except.mapError Fault.io) found
      rw [list, Act.bind_of_ok done]
      rfl

theorem takeEntries_cons (d : ExtractedDirectory) (raw : FileName) (rest : List FileName)
    (t : PathTable) :
    takeEntries d (raw :: rest) t =
      match entryName raw with
      | .error e => ⟨.error e, t, []⟩
      | .ok n =>
        let assigned := t.assign (d.path.join ⟨raw⟩)
        let o := takeEntries d rest assigned.2
        ⟨o.result.map (⟨n, assigned.1⟩ :: ·), o.state, o.trace⟩ := by
  cases named : entryName raw with
  | error e =>
      have failed : (Act.ofExcept (entryName raw) t).result = .error e := named
      rw [takeEntries, Act.bind_of_error failed]
      rfl
  | ok n =>
      have done : (Act.ofExcept (entryName raw) t).result = .ok n := named
      have tail := Act.map_run (takeEntries d rest)
        (⟨n, (t.assign (d.path.join ⟨raw⟩)).1⟩ :: ·) (t.assign (d.path.join ⟨raw⟩)).2
      rw [takeEntries, Act.bind_of_ok done, Act.bind_of_ok rfl]
      exact tail

theorem entryName_ok {raw : FileName} {n : ShortName} (h : entryName raw = .ok n) :
    n.toBytes = raw ∧ Utf8.encode (Utf8.lossy raw) = raw := by
  unfold entryName at h
  split at h
  · cases h
  · next text =>
      cases named : ShortName.ofBytes raw with
      | error cause =>
          rw [named] at h
          cases h
      | ok n' =>
          rw [named] at h
          cases h
          exact ⟨ShortName.toBytes_ofBytes named, by simpa [Utf8.decode?] using text⟩

theorem name_of_takeEntries (d : ExtractedDirectory) (names : List FileName) {t : PathTable}
    {entries : List Entry} (h : (takeEntries d names t).result = .ok entries) :
    ∀ e ∈ entries, ∃ raw ∈ names, entryName raw = .ok e.name := by
  induction names generalizing t entries with
  | nil =>
      cases h
      exact List.forall_mem_nil _
  | cons raw rest ih =>
      obtain ⟨n, named, h⟩ := Act.exists_of_bind_ok h
      obtain ⟨ino, -, h⟩ := Act.exists_of_bind_ok h
      obtain ⟨others, taken, h⟩ := Act.exists_of_bind_ok h
      cases h
      refine List.forall_mem_cons.mpr ⟨⟨raw, List.mem_cons_self .., named⟩, fun e he => ?_⟩
      obtain ⟨raw', mem, named'⟩ := ih taken e he
      exact ⟨raw', List.mem_cons_of_mem raw mem, named'⟩

theorem takeEntries_holds {P : Path → Prop} {root : Path} (d : ExtractedDirectory)
    (names : List FileName)
    (each : ∀ raw ∈ names, ∀ n, entryName raw = .ok n → P (d.path.join ⟨raw⟩)) {t : PathTable}
    (h : t.Holds root P) : (takeEntries d names t).state.Holds root P := by
  induction names generalizing t with
  | nil => exact h
  | cons raw rest ih =>
      have others := fun r hr => each r (List.mem_cons_of_mem raw hr)
      cases hname : entryName raw with
      | error e =>
          have failed : (Act.ofExcept (entryName raw) t).result = .error e := hname
          rw [takeEntries, Act.bind_of_error failed]
          exact h
      | ok n =>
          have named : (Act.ofExcept (entryName raw) t).result = .ok n := hname
          have assigned := h.assign (each raw (List.mem_cons_self ..) n hname)
          have rest := ih others assigned
          rw [takeEntries, Act.bind_of_ok named, Act.bind_of_ok rfl, Act.map_state]
          exact rest

/-- The table and the open directories that a container may have come to, with its root at `p`,
if the disk was in a state of `D` at every call and each name to be opened was one of `N`. -/
inductive Reached (D : Disk → Prop) (N : ShortName → Prop) (p : Path) :
    PathTable → List ExtractedDirectory → Prop
  | openRoot {disk : Disk} {t : PathTable} :
      D disk → (openRoot disk p ()).result = .ok t → Reached D N p t []
  | openDirectory {t : PathTable} {ds : List ExtractedDirectory} {disk : Disk} (ino : Ino) :
      Reached D N p t ds → D disk → Reached D N p (openDirectory disk ino t).state
        ((openDirectory disk ino t).result.toOption.toList ++ ds)
  | list {t : PathTable} {ds : List ExtractedDirectory} {disk : Disk} {d : ExtractedDirectory}
      (kind : EntryKind) :
      Reached D N p t ds → d ∈ ds → D disk → Reached D N p (list disk d kind t).state ds
  | subdirectory {t : PathTable} {ds : List ExtractedDirectory} {disk : Disk}
      {d : ExtractedDirectory} {n : ShortName} :
      Reached D N p t ds → d ∈ ds → D disk → N n →
      Reached D N p (subdirectory disk d n t).state
        ((subdirectory disk d n t).result.toOption.toList ++ ds)

section Reached

variable {D : Disk → Prop} {N : ShortName → Prop} {p : Path} {t : PathTable}
  {ds : List ExtractedDirectory}

theorem Reached.exists_root (h : Reached D N p t ds) : ∃ disk, D disk ∧ disk.isDirectory p := by
  induction h with
  | openRoot now opened => exact ⟨_, now, (openRoot_ok opened).2⟩
  | openDirectory _ _ _ ih => exact ih
  | list _ _ _ _ ih => exact ih
  | subdirectory _ _ _ _ ih => exact ih

/-- What holds of the path of each open directory, as `H`, and of each path with a number, as `P`,
follows from what each call does. -/
theorem Reached.holds {P H : Path → Prop} (h : Reached D N p t ds) (root : P p)
    (opened : ∀ disk ino q, D disk → P q → canOpen disk ino q → (ino = rootIno → q = p) → H q)
    (listed : ∀ disk q es e n, D disk → H q → disk.listing q = .ok es → e ∈ es →
      entryName e.1 = .ok n → P (q.join ⟨e.1⟩))
    (entered : ∀ disk q n, D disk → N n → H q →
      disk.isRealDirectory (q.join (Path.ofText n.display)) →
      P (q.join (Path.ofText n.display)) ∧ H (q.join (Path.ofText n.display))) :
    t.Holds p P ∧ ∀ d ∈ ds, H d.path := by
  induction h with
  | @openRoot disk t now done =>
      rw [(openRoot_ok done).1]
      exact ⟨PathTable.holds_ofRoot root, List.forall_mem_nil _⟩
  | @openDirectory t ds disk ino reached now ih =>
      rw [openDirectory_run]
      cases known : t.path? ino with
      | none => exact ih
      | some q =>
          dsimp only
          split
          · next can =>
              refine ⟨ih.1, List.forall_mem_cons.mpr ⟨?_, ih.2⟩⟩
              refine opened disk ino q now (ih.1.all ino q known) can fun same => ?_
              rw [same, ih.1.root] at known
              exact (Option.some.inj known).symm
          · exact ih
  | @list t ds disk d kind reached mem now ih =>
      refine ⟨?_, ih.2⟩
      rw [list_run]
      cases found : disk.listing d.path with
      | error cause => exact ih.1
      | ok es =>
          refine takeEntries_holds d _ (fun raw hraw n named => ?_) ih.1
          obtain ⟨e, he, rfl⟩ := List.mem_map.mp hraw
          exact listed disk d.path es e n now (ih.2 d mem) found (List.mem_filter.mp he).1 named
  | @subdirectory t ds disk d n reached mem now allowed ih =>
      rw [subdirectory_run]
      split
      · next real =>
          obtain ⟨hP, hH⟩ := entered disk d.path n now allowed (ih.2 d mem) real
          exact ⟨ih.1.assign hP, List.forall_mem_cons.mpr ⟨hH, ih.2⟩⟩
      · exact ih

theorem Reached.path_ne_nil (h : Reached D N p t ds) : ∀ d ∈ ds, d.path.bytes ≠ [] := by
  obtain ⟨disk, -, root⟩ := h.exists_root
  obtain ⟨s, found, -⟩ := (disk.isDirectory_iff p).mp root
  have nonempty : p.bytes ≠ [] := ((Disk.find_eq_ok_iff ..).mp found).2.1
  have held := h.holds (P := fun q => q.bytes ≠ []) (H := fun q => q.bytes ≠ []) nonempty
    (fun _ _ _ _ known _ _ => known) (fun _ q _ e _ _ hq _ _ _ => Path.join_ne_nil hq ⟨e.1⟩)
    fun _ q n _ _ hq _ => ⟨Path.join_ne_nil hq _, Path.join_ne_nil hq _⟩
  exact held.2

end Reached

/-- The path leads to the root, or from there through directories, none of them a link, by the
names of their entries. -/
inductive Inside (disk : Disk) (p : Path) : Path → Spot → Prop
  | root {s : Spot} : disk.find .through p = .ok s → s.node.isDirectory → Inside disk p p s
  | entry {q : Path} {s : Spot} {name : FileName} {es sub : List (FileName × Node)} :
      Inside disk p q s → s.node = .directory es → es.lookup name = some (.directory sub) →
      Path.IsName name → (q.join ⟨name⟩).bytes.length < Disk.pathLimit →
      Inside disk p (q.join ⟨name⟩) (s.enter name (.directory sub))

section Inside

variable {disk : Disk} {p q : Path} {s : Spot}

theorem Inside.found (h : Inside disk p q s) :
    disk.find .through q = .ok s ∧ s.node.isDirectory := by
  induction h with
  | root found directory => exact ⟨found, directory⟩
  | @entry q s name es sub inside node entry isName short ih =>
      have nonempty : q.bytes ≠ [] := ((Disk.find_eq_ok_iff ..).mp ih.1).2.1
      have step : s.step name = .ok (s.enter name (.directory sub)) :=
        (Spot.step_eq_ok_iff isName).mpr ⟨es, _, node, entry, rfl⟩
      exact ⟨Disk.find_through_join isName nonempty short ih.1 step rfl, rfl⟩

theorem Inside.join (h : Inside disk p q s) {name : FileName} (isName : Path.IsName name)
    (real : disk.isRealDirectory (q.join ⟨name⟩)) : ∃ t, Inside disk p (q.join ⟨name⟩) t := by
  have nonempty : q.bytes ≠ [] := ((Disk.find_eq_ok_iff ..).mp h.found.1).2.1
  obtain ⟨short, s', es, sub, found, node, entry⟩ :=
    (Disk.isRealDirectory_join isName nonempty).mp real
  cases h.found.1.symm.trans found
  exact ⟨_, h.entry node entry isName short⟩

theorem Reached.inside {t : PathTable} {ds : List ExtractedDirectory} (named : disk.root.Named)
    (h : Reached (· = disk) ShortName.IsComponent p t ds) :
    ∀ d ∈ ds, ∃ s, Inside disk p d.path s := by
  obtain ⟨disk', same, root⟩ := h.exists_root
  rw [same] at root
  obtain ⟨r, found, directory⟩ := (disk.isDirectory_iff p).mp root
  -- A number may stand for a file or a link, too: whether its path leads to a directory is found
  -- out when it is opened.
  have held := h.holds (H := fun q => ∃ s, Inside disk p q s)
    (P := fun q => q = p ∨ ∃ q' name, (∃ s, Inside disk p q' s) ∧ Path.IsName name ∧
      q = q'.join ⟨name⟩) (.inl rfl) ?_ ?_ ?_
  · exact held.2
  · rintro disk' ino q same (rfl | ⟨q', name, ⟨s, inside⟩, isName, rfl⟩) can atRoot
    · exact ⟨r, .root found directory⟩
    · by_cases root : ino = rootIno
      · rw [atRoot root]
        exact ⟨r, .root found directory⟩
      · rw [canOpen, if_neg root, same] at can
        exact inside.join isName can
  · rintro _ q es e n rfl inside listed mem _
    exact .inr ⟨q, e.1, inside, Disk.isName_of_listing named listed e mem, rfl⟩
  · rintro _ q n rfl component ⟨s, inside⟩ real
    rw [component.ofText_display] at real ⊢
    exact ⟨.inr ⟨q, _, ⟨s, inside⟩, component.isName, rfl⟩, inside.join component.isName real⟩

/-- All that is listed can be asked for. -/
theorem isComponent_of_listed (named : disk.root.Named) {d : ExtractedDirectory}
    {kind : EntryKind} {t : PathTable} {entries : List Entry}
    (h : (list disk d kind t).result = .ok entries) : ∀ e ∈ entries, e.name.IsComponent := by
  rw [list_run] at h
  cases found : disk.listing d.path with
  | error cause =>
      rw [found] at h
      cases h
  | ok es =>
      rw [found] at h
      intro e he
      obtain ⟨raw, mem, ok⟩ := name_of_takeEntries d _ h e he
      obtain ⟨x, hx, rfl⟩ := List.mem_map.mp mem
      obtain ⟨bytes, text⟩ := entryName_ok ok
      have isName := Disk.isName_of_listing named found x (List.mem_filter.mp hx).1
      exact ⟨by rw [bytes, text], bytes ▸ isName⟩

end Inside

/-- With a component for a name, what can be opened below any directory that was opened before, in
whatever state the disk is now, are the directories that it has and that are no links. While the
disk stays the same, all of them are inside the root. Whatever is listed has a component for its
name. -/
theorem subdirectory_of_isComponent (p : Path) :
    (∀ t ds, Reached (fun _ => True) (fun _ => True) p t ds →
      ∀ d ∈ ds, ∀ (disk : Disk) (n : ShortName), n.IsComponent →
        let path := d.path.join ⟨n.toBytes⟩
        let has := path.bytes.length < Disk.pathLimit ∧ ∃ es sub,
          disk.node d.path = .ok (.directory es) ∧ es.lookup n.toBytes = some (.directory sub)
        let o := subdirectory disk d n t
        (has → o.result = .ok ⟨path, (t.assign path).1⟩) ∧
          (¬has → o.result = .error (.missing (.subdirectory n d.ino)))) ∧
    ∀ disk : Disk, disk.root.Named →
      (∀ t ds, Reached (· = disk) ShortName.IsComponent p t ds →
        ∀ d ∈ ds, ∃ s, disk.find .through d.path = .ok s ∧ Inside disk p d.path s) ∧
      ∀ d kind t entries, (list disk d kind t).result = .ok entries →
        ∀ e ∈ entries, e.name.IsComponent := by
  refine ⟨?_, fun disk named => ⟨?_, fun d kind t entries => isComponent_of_listed named⟩⟩
  · intro t ds reached d mem disk n component path has o
    have nonempty := reached.path_ne_nil d mem
    have run : o = _ := subdirectory_run disk d n t
    rw [component.ofText_display] at run
    have real : disk.isRealDirectory path ↔ has := by
      rw [Disk.isRealDirectory_join component.isName nonempty]
      refine and_congr_right fun _ => ?_
      unfold Disk.node
      cases disk.find .through d.path with
      | error e => simp [Except.map]
      | ok s => simp [Except.map]
    constructor
    · intro yes
      rw [run, if_pos (real.mpr yes)]
    · intro no
      rw [run, if_neg (mt real.mp no)]
  · intro t ds reached d mem
    obtain ⟨s, inside⟩ := reached.inside named d mem
    exact ⟨s, inside.found.1, inside⟩

theorem subdirectory_of_isComponent_below :
    let disk : Disk :=
      ⟨.directory [([0x63], .directory [([0x64], .directory []), ([0x65], .link ⟨[0x2F]⟩)])], []⟩
    let p : Path := ⟨[0x63]⟩
    let n : ShortName := ⟨#v[0x64, 0, 0, 0, 0, 0, 0, 0, 0, 0, 0, 0, 0, 0, 0, 0], 1,
      by decide, by decide⟩
    let below : ExtractedDirectory := ⟨⟨[0x63, 0x2F, 0x64]⟩, 2⟩
    n.IsComponent ∧ disk.root.Named ∧
      (subdirectory disk ⟨p, rootIno⟩ n (openDirectory disk rootIno (.ofRoot p)).state).result =
        .ok below ∧
      ∃ s, disk.find .through below.path = .ok s ∧ Inside disk p below.path s := by
  intro disk p n below
  have component : n.IsComponent := ⟨by decide, by decide⟩
  have named : disk.root.Named :=
    .cons (by decide) (.cons (by decide) .nil (.cons (by decide) (.link _) .nil)) .nil
  have start : Reached (· = disk) ShortName.IsComponent p (.ofRoot p) [] := .openRoot rfl rfl
  have opened : (openDirectory disk rootIno (.ofRoot p)).result = .ok ⟨p, rootIno⟩ := by
    decide +kernel
  have first := start.openDirectory rootIno rfl
  rw [opened] at first
  have entered : (subdirectory disk ⟨p, rootIno⟩ n
      (openDirectory disk rootIno (.ofRoot p)).state).result = .ok below := by
    decide +kernel
  have second := first.subdirectory (List.mem_cons_self ..) rfl component
  rw [entered] at second
  have inside := ((subdirectory_of_isComponent p).2 disk named).1 _ _ second below
    (List.mem_cons_self ..)
  exact ⟨component, named, entered, inside⟩

/-- A text of more than one component leads above the root, and one that ends in a slash leads
through a link, though neither is among the directories that are listed. -/
theorem subdirectory_leaves_root :
    let disk : Disk :=
      ⟨.directory [([0x63], .directory [([0x65], .link ⟨[0x2E, 0x2E, 0x2F, 0x66]⟩)]),
        ([0x66], .directory [])], []⟩
    let root : ExtractedDirectory := ⟨⟨[0x63]⟩, rootIno⟩
    let t := PathTable.ofRoot root.path
    let up : ShortName := ⟨#v[0x2E, 0x2E, 0, 0, 0, 0, 0, 0, 0, 0, 0, 0, 0, 0, 0, 0], 2,
      by decide, by decide⟩
    let link : ShortName := ⟨#v[0x65, 0x2F, 0, 0, 0, 0, 0, 0, 0, 0, 0, 0, 0, 0, 0, 0], 2,
      by decide, by decide⟩
    (openDirectory disk rootIno t).result = .ok root ∧
      (list disk root .directory t).result = .ok [] ∧
      (subdirectory disk root up t).result = .ok ⟨⟨[0x63, 0x2F, 0x2E, 0x2E]⟩, 2⟩ ∧
      (disk.find .through ⟨[0x63, 0x2F, 0x2E, 0x2E]⟩).map Spot.place = .ok [] ∧
      (subdirectory disk root link t).result = .ok ⟨⟨[0x63, 0x2F, 0x65, 0x2F]⟩, 2⟩ ∧
      (disk.find .through ⟨[0x63, 0x2F, 0x65, 0x2F]⟩).map Spot.place = .ok [[0x66]] := by
  decide +kernel

end Extracted
end SaveContainer
