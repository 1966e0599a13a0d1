import SaveContainer.Proofs.NameText
import SaveContainer.Proofs.PathBelow
import SaveContainer.Proofs.Runs

/-!
The numbers that an extracted container gives out in a run. Main statement: they belong to the
paths, whatever else is called and however the disk changes; and as long as directories are only
asked for by names of one component, whatever was just listed opens by its name and by its number
alike.
-/

namespace SaveContainer.Extracted

open Moment

/-- Every number that was given out is that of its path in the table. -/
structure Moment.Numbered (p : Path) (m : Moment) : Prop where
  sound : m.table.Sound
  root : m.table.number? p = some rootIno
  held : ∀ d ∈ m.held, m.table.number? d.path = some d.ino
  given : ∀ x ∈ m.given, m.table.number? x.1 = some x.2

theorem takeEntries_numbers (d : ExtractedDirectory) (names : List FileName) {t : PathTable}
    (sound : t.Sound) :
    let o := takeEntries d names t
    o.state.Sound ∧ t.Extends o.state ∧ ∀ entries, o.result = .ok entries →
      ∀ e ∈ entries, o.state.number? (d.path.join ⟨e.name.toBytes⟩) = some e.ino := by
  induction names generalizing t with
  | nil =>
      refine ⟨sound, .refl t, fun entries done => ?_⟩
      cases done
      exact List.forall_mem_nil _
  | cons raw rest ih =>
      rw [takeEntries_cons]
      cases named : entryName raw with
      | error e => exact ⟨sound, .refl t, nofun⟩
      | ok n =>
          obtain ⟨sound', number⟩ := sound.assign (d.path.join ⟨raw⟩)
          obtain ⟨sound'', extends', numbers⟩ := ih sound'
          refine ⟨sound'', (t.extends_assign _).trans extends', fun entries done => ?_⟩
          cases taken : (takeEntries d rest (t.assign (d.path.join ⟨raw⟩)).2).result with
          | error e =>
              simp only [taken, Except.map] at done
              cases done
          | ok others =>
              simp only [taken, Except.map] at done
              cases done
              refine List.forall_mem_cons.mpr ⟨?_, numbers others taken⟩
              rw [(entryName_ok named).1]
              exact sound'.number?_mono extends' sound'' number

theorem list_numbers (disk : Disk) (d : ExtractedDirectory) (kind : EntryKind) {t : PathTable}
    (sound : t.Sound) :
    let o := list disk d kind t
    o.state.Sound ∧ t.Extends o.state ∧ ∀ entries, o.result = .ok entries →
      ∀ e ∈ entries, o.state.number? (d.path.join ⟨e.name.toBytes⟩) = some e.ino := by
  rw [list_run]
  cases disk.listing d.path with
  | error cause => exact ⟨sound, .refl t, nofun⟩
  | ok es => exact takeEntries_numbers d _ sound

theorem openDirectory_numbers (disk : Disk) (ino : Ino) {t : PathTable} (sound : t.Sound) :
    let o := openDirectory disk ino t
    o.state.Sound ∧ t.Extends o.state ∧
      ∀ d, o.result = .ok d → o.state.number? d.path = some d.ino := by
  rw [openDirectory_run]
  cases known : t.path? ino with
  | none => exact ⟨sound, .refl t, nofun⟩
  | some q =>
      dsimp only
      split
      · refine ⟨sound, .refl t, fun d done => ?_⟩
        cases done
        exact sound.number?_of_path? known
      · exact ⟨sound, .refl t, nofun⟩

theorem subdirectory_numbers (disk : Disk) (d : ExtractedDirectory) (n : ShortName)
    {t : PathTable} (sound : t.Sound) :
    let o := subdirectory disk d n t
    o.state.Sound ∧ t.Extends o.state ∧
      ∀ c, o.result = .ok c → o.state.number? c.path = some c.ino := by
  rw [subdirectory_run]
  split
  · obtain ⟨sound', number⟩ := sound.assign (d.path.join (Path.ofText n.display))
    refine ⟨sound', t.extends_assign _, fun c done => ?_⟩
    cases done
    exact number
  · exact ⟨sound, .refl t, nofun⟩

section Calls

variable {D : Disk → Prop} {N : ShortName → Prop} {m m' : Moment} {p : Path}

theorem Moment.Numbered.grow (h : m.Numbered p) {t : PathTable} (sound : t.Sound)
    (extends' : m.table.Extends t) : Numbered p { m with table := t } where
  sound := sound
  root := h.sound.number?_mono extends' sound h.root
  held d mem := h.sound.number?_mono extends' sound (h.held d mem)
  given x mem := h.sound.number?_mono extends' sound (h.given x mem)

theorem Moment.Numbered.opened (h : m.Numbered p) {o : Outcome PathTable ExtractedDirectory}
    (sound : o.state.Sound) (extends' : m.table.Extends o.state)
    (number : ∀ d, o.result = .ok d → o.state.number? d.path = some d.ino) :
    (m.opened o).Numbered p := by
  have grown := h.grow sound extends'
  unfold Moment.opened
  cases ended : o.result with
  | error e => exact grown
  | ok d =>
      exact ⟨sound, grown.root, List.forall_mem_cons.mpr ⟨number d ended, grown.held⟩,
        List.forall_mem_cons.mpr ⟨number d ended, grown.given⟩⟩

theorem Moment.Numbered.listed (h : m.Numbered p) (d : ExtractedDirectory)
    {o : Outcome PathTable (List Entry)} (sound : o.state.Sound)
    (extends' : m.table.Extends o.state)
    (number : ∀ entries, o.result = .ok entries →
      ∀ e ∈ entries, o.state.number? (d.path.join ⟨e.name.toBytes⟩) = some e.ino) :
    (m.listed d o).Numbered p := by
  have grown := h.grow sound extends'
  unfold Moment.listed
  cases ended : o.result with
  | error e => exact grown
  | ok entries =>
      refine ⟨sound, grown.root, grown.held, List.forall_mem_append.mpr ⟨?_, grown.given⟩⟩
      exact List.forall_mem_map.mpr (number entries ended)

theorem Moment.Numbered.call (h : m.Numbered p) (call : Call D N m m') :
    m'.Numbered p ∧ m.table.Extends m'.table := by
  cases call with
  | @openDirectory disk ino now =>
      obtain ⟨sound, extends', number⟩ := openDirectory_numbers disk ino h.sound
      rw [table_opened]
      exact ⟨h.opened sound extends' number, extends'⟩
  | @list disk d kind now mem =>
      obtain ⟨sound, extends', number⟩ := list_numbers disk d kind h.sound
      rw [table_listed]
      exact ⟨h.listed d sound extends' number, extends'⟩
  | @subdirectory disk d n now mem allowed =>
      obtain ⟨sound, extends', number⟩ := subdirectory_numbers disk d n h.sound
      rw [table_opened]
      exact ⟨h.opened sound extends' number, extends'⟩

theorem Moment.Numbered.calls (h : m.Numbered p) (calls : Calls D N m m') :
    m'.Numbered p ∧ m.table.Extends m'.table := by
  induction calls with
  | refl => exact ⟨h, .refl m.table⟩
  | tail _ call ih =>
      obtain ⟨numbered, extends'⟩ := ih.1.call call
      exact ⟨numbered, ih.2.trans extends'⟩

theorem numbered_start {disk : Disk} {t : PathTable} (root : (openRoot disk p ()).result = .ok t) :
    (start t).Numbered p := by
  rw [(openRoot_ok root).1]
  obtain ⟨sound, number⟩ := PathTable.sound_ofRoot p
  exact ⟨sound, number, List.forall_mem_nil _, List.forall_mem_nil _⟩

theorem Moment.Numbered.run (names : ∀ disk d kind t entries, D disk →
      (list disk d kind t).result = .ok entries → ∀ e ∈ entries, N e.name)
    (h : m.Numbered p) (run : Run D N m m') :
    m'.Numbered p ∧ m.table.Extends m'.table := by
  obtain ⟨m'', calls, within⟩ := run.calls names
  obtain ⟨numbered, extends'⟩ := h.calls calls
  rw [within.table] at extends'
  refine ⟨⟨within.table ▸ numbered.sound, within.table ▸ numbered.root, ?_, ?_⟩, extends'⟩
  · exact fun d mem => within.table ▸ numbered.held d (within.held mem)
  · exact fun x mem => within.table ▸ numbered.given x (within.given mem)

end Calls

section Components

variable {p : Path}

/-- What a file system makes sure of. -/
def OnDisk (disk : Disk) : Prop :=
  disk.root.WellFormed

/-- The name is one component of a path, be it text or not. -/
def OfPart (n : ShortName) : Prop :=
  Path.IsPart n.toBytes

theorem ofPart_of_listed (disk : Disk) (d : ExtractedDirectory) (kind : EntryKind) (t : PathTable)
    (entries : List Entry) (wellFormed : OnDisk disk)
    (listed : (list disk d kind t).result = .ok entries) : ∀ e ∈ entries, OfPart e.name :=
  fun e mem => (isComponent_of_listed wellFormed.named listed e mem).isName.isPart

theorem Reached.isBelow {t : PathTable} {ds : List ExtractedDirectory}
    (h : Reached OnDisk OfPart p t ds) :
    t.Holds p (Path.IsBelow p) ∧ ∀ d ∈ ds, Path.IsBelow p d.path := by
  refine h.holds (Path.isBelow_self p) ?_ ?_ ?_
  · intro disk ino q _ below _ _
    exact below
  · intro disk q es e n wellFormed below listed mem _
    exact below.join (Disk.isName_of_listing wellFormed.named listed e mem)
  · intro disk q n _ part below _
    have joined := below.join (ShortName.isName_display part)
    exact ⟨joined, joined⟩

-- What is listed is there to be looked up, and its kind is that of its own node.
theorem isRealDirectory_of_listed {disk : Disk} {d : ExtractedDirectory} {kind : EntryKind}
    {t : PathTable} (wellFormed : OnDisk disk) (nonempty : d.path.bytes ≠ [])
    {entries : List Entry} (listed : (list disk d kind t).result = .ok entries) {e : Entry}
    (mem : e ∈ entries) :
    let path := d.path.join ⟨e.name.toBytes⟩
    disk.isRealDirectory path ↔ path.bytes.length < Disk.pathLimit ∧ kind = .directory := by
  rw [list_run] at listed
  cases found : disk.listing d.path with
  | error cause =>
      rw [found] at listed
      cases listed
  | ok es =>
      rw [found] at listed
      obtain ⟨raw, taken, named⟩ := name_of_takeEntries d _ listed e mem
      obtain ⟨x, hx, rfl⟩ := List.mem_map.mp taken
      obtain ⟨inside, same⟩ := List.mem_filter.mp hx
      have kinds : x.2.isDirectory = true ↔ kind = .directory := by
        rw [← of_decide_eq_true same, kindOf]
        cases x.2.isDirectory <;> simp
      rw [(entryName_ok named).1, ← kinds]
      exact Disk.isRealDirectory_listed wellFormed found inside nonempty

/-- An entry that was just listed is opened by its name and by its number, or by neither. -/
theorem open_listed {m : Moment} {disk : Disk} {d : ExtractedDirectory} {kind : EntryKind}
    (nonempty : p.bytes ≠ []) (reached : Reached OnDisk OfPart p m.table m.held)
    (numbered : m.Numbered p) (wellFormed : OnDisk disk) (held : d ∈ m.held)
    {entries : List Entry} (listed : (list disk d kind m.table).result = .ok entries) {e : Entry}
    (mem : e ∈ entries) :
    let t := (list disk d kind m.table).state
    let path := d.path.join ⟨e.name.toBytes⟩
    if path.bytes.length < Disk.pathLimit ∧ kind = .directory then
      (subdirectory disk d e.name t).result = .ok ⟨path, e.ino⟩ ∧
        (openDirectory disk e.ino t).result = .ok ⟨path, e.ino⟩
    else
      (subdirectory disk d e.name t).result = .error (.missing (.subdirectory e.name d.ino)) ∧
        (openDirectory disk e.ino t).result = .error (.missing (.notADirectory e.ino)) := by
  intro t path
  obtain ⟨sound, extends', numbers⟩ := list_numbers disk d kind numbered.sound
  have number : t.number? path = some e.ino := numbers entries listed e mem
  have component := isComponent_of_listed wellFormed.named listed e mem
  have below := reached.isBelow.2 d held
  have real := isRealDirectory_of_listed wellFormed (below.ne_nil nonempty) listed mem
  have notRoot : e.ino ≠ rootIno := by
    intro root
    have atRoot := numbered.sound.number?_mono extends' sound numbered.root
    exact below.key_join_ne nonempty component.isName ((sound.number_inj number atRoot).mp root)
  -- The path of the number is the one that was listed, not merely one with the same components.
  have path? : t.path? e.ino = some path := by
    obtain ⟨first, found, same⟩ := sound.number?_eq_some_iff.mp number
    have table := (reached.list kind held wellFormed).isBelow.1
    rw [found, (table.all e.ino first found).eq_of_key (below.join component.isName) nonempty same]
  have byName : subdirectory disk d e.name t = _ := subdirectory_run disk d e.name t
  have byNumber : openDirectory disk e.ino t = _ := openDirectory_run disk e.ino t
  rw [component.ofText_display, PathTable.assign_known number] at byName
  rw [path?] at byNumber
  simp only [canOpen, if_neg notRoot] at byNumber
  split
  · next has =>
      rw [byName, byNumber, if_pos (real.mpr has), if_pos (real.mpr has)]
      exact ⟨rfl, rfl⟩
  · next lacks =>
      rw [byName, byNumber, if_neg (mt real.mp lacks), if_neg (mt real.mp lacks)]
      exact ⟨rfl, rfl⟩

theorem open_listed_of_run {disk₀ disk : Disk} {t₀ : PathTable} {m : Moment}
    (root : (openRoot disk₀ p ()).result = .ok t₀) (now : OnDisk disk₀)
    (run : Run OnDisk OfPart (start t₀) m) (wellFormed : OnDisk disk) {d : ExtractedDirectory}
    (held : d ∈ m.held) {kind : EntryKind} {entries : List Entry}
    (listed : (list disk d kind m.table).result = .ok entries) {e : Entry} (mem : e ∈ entries) :
    let t := (list disk d kind m.table).state
    let path := d.path.join ⟨e.name.toBytes⟩
    if path.bytes.length < Disk.pathLimit ∧ kind = .directory then
      (subdirectory disk d e.name t).result = .ok ⟨path, e.ino⟩ ∧
        (openDirectory disk e.ino t).result = .ok ⟨path, e.ino⟩
    else
      (subdirectory disk d e.name t).result = .error (.missing (.subdirectory e.name d.ino)) ∧
        (openDirectory disk e.ino t).result = .error (.missing (.notADirectory e.ino)) := by
  obtain ⟨m', calls, within⟩ := run.calls ofPart_of_listed
  obtain ⟨numbered, -⟩ := (numbered_start root).calls calls
  obtain ⟨s, found, -⟩ := (disk₀.isDirectory_iff p).mp (openRoot_ok root).2
  have nonempty : p.bytes ≠ [] := ((Disk.find_eq_ok_iff ..).mp found).2.1
  rw [← within.table] at listed ⊢
  exact open_listed nonempty (calls.reached now root) numbered wellFormed (within.held held) listed
    mem

end Components

section LongRoot

theorem run_openRoot {disk : Disk} {p : Path} (now : OnDisk disk)
    (directory : disk.isDirectory p) : Run OnDisk OfPart (Moment.start (.ofRoot p))
      ⟨.ofRoot p, [⟨p, rootIno⟩], [(p, rootIno)]⟩ := by
  have call : Moment.Call OnDisk OfPart (Moment.start (.ofRoot p))
      ((Moment.start (.ofRoot p)).opened (openDirectory disk rootIno (.ofRoot p))) :=
    .openDirectory rootIno now
  rw [openDirectory_root (PathTable.path?_ofRoot p) directory] at call
  exact .single (.call call)

variable {es : List (FileName × Node)}

/-- A disk with a directory `c` that holds these entries. -/
def diskWith (es : List (FileName × Node)) : Disk :=
  ⟨.directory [([0x63], .directory es)], []⟩

theorem wellFormed_diskWith (wellFormed : (Node.directory es).WellFormed) : OnDisk (diskWith es) :=
  have isName : Path.IsName [0x63] := by decide
  .directory (List.forall_mem_singleton.mpr isName) (List.nodup_singleton _)
    (List.forall_mem_singleton.mpr wellFormed)

/-- A directory `c` with a directory `d` in it. -/
def nestedDisk : Disk :=
  diskWith [([0x64], .directory [])]

theorem wellFormed_nestedDisk : OnDisk nestedDisk :=
  have leaf : (Node.directory []).WellFormed := .directory (by decide) .nil (List.forall_mem_nil _)
  wellFormed_diskWith (.directory (by decide) (by decide) (List.forall_mem_singleton.mpr leaf))

/-- The path of `c` with as many slashes at its end. -/
def slashes (n : Nat) : Path :=
  ⟨0x63 :: List.replicate n Path.slash⟩

variable {n : Nat} (pos : 0 < n)
include pos

theorem steps_slashes : (slashes n).steps = [[0x63], Path.dot] := by
  obtain ⟨n, rfl⟩ := Nat.exists_eq_succ_of_ne_zero pos.ne'
  have empty (n : Nat) : pieces Path.slash (List.replicate n Path.slash) =
      List.replicate (n + 1) [] := by
    induction n with
    | zero => rfl
    | succ n ih => rw [List.replicate_succ, pieces, if_pos rfl, ih, ← List.replicate_succ]
  have ends : (slashes (n + 1)).endsInSlash = true := by
    simp [slashes, Path.endsInSlash, List.getLast?_cons, List.getLast?_replicate]
  have first : pieces Path.slash (slashes (n + 1)).bytes =
      [0x63] :: List.replicate (n + 1) [] := by
    rw [slashes, pieces, if_neg (by decide), empty, List.replicate_succ]
  rw [Path.steps, ends, first]
  simp

variable (short : n + 1 < Disk.pathLimit)
include short

theorem node_slashes (es : List (FileName × Node)) :
    (diskWith es).node (slashes n) = .ok (.directory es) := by
  have found : (diskWith es).find .through (slashes n) =
      .ok ⟨(diskWith es).root, [([0x63], .directory es)]⟩ := by
    refine (Disk.find_eq_ok_iff ..).mpr
      ⟨?_, List.cons_ne_nil _ _, ?_, ⟨(diskWith es).root, []⟩, rfl, ?_⟩
    · simp [slashes, List.mem_replicate, Path.slash]
    · simpa [slashes] using short
    · rw [steps_slashes pos]
      rfl
  exact congrArg (Except.map Spot.node) found

theorem opened_slashes (es : List (FileName × Node)) :
    let t := PathTable.ofRoot (slashes n)
    (openRoot (diskWith es) (slashes n) ()).result = .ok t ∧
      (diskWith es).isDirectory (slashes n) ∧
      openDirectory (diskWith es) rootIno t = ⟨.ok ⟨slashes n, rootIno⟩, t,
        [.event (.openDirectory .directory rootIno)]⟩ := by
  have found := node_slashes pos short es
  have directory : (diskWith es).isDirectory (slashes n) = true := by
    rw [Disk.isDirectory, found]
    rfl
  refine ⟨?_, directory, openDirectory_root (PathTable.path?_ofRoot _) directory⟩
  rw [openRoot, found]
  rfl

/-- What is listed below a path of the greatest length cannot be looked up. -/
theorem refused_slashes (wellFormed : (Node.directory es).WellFormed)
    (long : Disk.pathLimit ≤ n + 2) {kind : EntryKind} {entries : List Entry} {e : Entry} :
    let o := list (diskWith es) ⟨slashes n, rootIno⟩ kind (.ofRoot (slashes n))
    o.result = .ok entries → e ∈ entries →
      (subdirectory (diskWith es) ⟨slashes n, rootIno⟩ e.name o.state).result =
          .error (.missing (.subdirectory e.name rootIno)) ∧
        (openDirectory (diskWith es) e.ino o.state).result =
          .error (.missing (.notADirectory e.ino)) := by
  intro o listed mem
  have onDisk := wellFormed_diskWith wellFormed
  obtain ⟨start, directory, -⟩ := opened_slashes pos short es
  have spec := open_listed_of_run start onDisk (run_openRoot onDisk directory) onDisk
    (List.mem_singleton_self _) listed mem
  have isName := (isComponent_of_listed onDisk.named listed e mem).isName
  have longer := Path.length_lt_join (p := slashes n) (List.cons_ne_nil _ _) isName
  rw [if_neg] at spec
  · exact spec
  · intro ⟨within, _⟩
    have size : (slashes n).bytes.length = n + 1 := by simp [slashes]
    rw [size] at longer
    exact absurd within (Nat.not_lt.mpr (Nat.le_trans long longer))

end LongRoot

/-- The numbers that have been given by this moment are the first ones, and each belongs to all
paths with the same components. -/
structure Moment.Consistent (p : Path) (m : Moment) : Prop where
  root : m.table.number? p = some rootIno
  given : ∀ x ∈ m.given, m.table.number? x.1 = some x.2
  same : ∀ x ∈ m.given, ∀ y ∈ m.given, x.2 = y.2 ↔ x.1.key = y.1.key
  distinct : m.table.keys.Nodup
  numbers : ∀ q ino, m.table.number? q = some ino ↔ (q.key, ino) ∈ m.table.keys.zipIdx rootIno
  paths : ∀ q ino, m.table.number? q = some ino ↔
    ∃ first, m.table.path? ino = some first ∧ first.key = q.key

theorem Moment.Numbered.consistent {p : Path} {m : Moment} (h : m.Numbered p) : m.Consistent p where
  root := h.root
  given := h.given
  same x hx y hy := h.sound.number_inj (h.given x hx) (h.given y hy)
  distinct := h.sound.distinct
  numbers q ino := h.sound.number q.key ino
  paths _ _ := h.sound.number?_eq_some_iff

/-- However the disk changes and whatever is called or printed, a number that was given stays with
its path; a print gives numbers as calls do. With names of one component only, an entry that was
just listed is opened by its name and by its number if it is a directory, and is refused both ways
if not. A path that is too long to be looked up is refused, too. -/
theorem numbers_of_run {p : Path} {disk₀ : Disk} {t₀ : PathTable}
    (root : (openRoot disk₀ p ()).result = .ok t₀) :
    (∀ m, Run (fun _ => True) (fun _ => True) (start t₀) m →
      m.Consistent p ∧
      (∀ m', Run (fun _ => True) (fun _ => True) m m' → m.given ⊆ m'.given ∧
        ∀ q ino, m.table.number? q = some ino → m'.table.number? q = some ino) ∧
      ∀ disk k,
        (∃ m', Calls (fun _ => True) (fun _ => True) m m' ∧
          m'.table = ((hierarchy disk).print (m.table, k)).state.1) ∧
        ∀ depth, ∀ d ∈ m.held, ∃ m', Calls (fun _ => True) (fun _ => True) m m' ∧
          m'.table = ((hierarchy disk).printBelow depth d (m.table, k)).state.1) ∧
    (OnDisk disk₀ → ∀ m, Run OnDisk OfPart (start t₀) m →
      ∀ disk, OnDisk disk → ∀ d ∈ m.held, ∀ kind entries,
        let o := list disk d kind m.table
        o.result = .ok entries → ∀ e ∈ entries,
          let path := d.path.join ⟨e.name.toBytes⟩
          if path.bytes.length < Disk.pathLimit ∧ kind = .directory then
            (subdirectory disk d e.name o.state).result = .ok ⟨path, e.ino⟩ ∧
              (openDirectory disk e.ino o.state).result = .ok ⟨path, e.ino⟩
          else
            (subdirectory disk d e.name o.state).result =
                .error (.missing (.subdirectory e.name d.ino)) ∧
              (openDirectory disk e.ino o.state).result =
                .error (.missing (.notADirectory e.ino))) := by
  refine ⟨fun m run => ?_, ?_⟩
  · obtain ⟨numbered, -⟩ := (numbered_start root).run (fun _ _ _ _ _ _ _ _ _ => trivial) run
    refine ⟨numbered.consistent, fun m' run' => ⟨run'.keeps.2, fun q ino found => ?_⟩,
      fun disk k => ⟨?_, fun depth d held => ?_⟩⟩
    · obtain ⟨numbered', extends'⟩ := numbered.run (fun _ _ _ _ _ _ _ _ _ => trivial) run'
      exact numbered.sound.number?_mono extends' numbered'.sound found
    · exact calls_of_print trivial (fun _ _ _ _ _ _ _ => trivial) m k
    · exact calls_of_printBelow trivial (fun _ _ _ _ _ _ _ => trivial) held depth k
  · intro now m run disk wellFormed d held kind entries o listed e mem path
    exact open_listed_of_run root now run wellFormed held listed mem

theorem numbers_of_run_nested :
    let root : ExtractedDirectory := ⟨⟨[0x63]⟩, rootIno⟩
    let below : ExtractedDirectory := ⟨⟨[0x63, 0x2F, 0x64]⟩, 2⟩
    let t := PathTable.ofRoot root.path
    let o := list nestedDisk root .directory t
    let name : ShortName := ⟨#v[0x64, 0, 0, 0, 0, 0, 0, 0, 0, 0, 0, 0, 0, 0, 0, 0], 1,
      by decide, by decide⟩
    (openRoot nestedDisk root.path ()).result = .ok t ∧ OnDisk nestedDisk ∧
      Run OnDisk OfPart (Moment.start t) ⟨t, [root], [(root.path, rootIno)]⟩ ∧
      o.result = .ok [⟨name, 2⟩] ∧ (subdirectory nestedDisk root name o.state).result = .ok below ∧
      (openDirectory nestedDisk 2 o.state).result = .ok below := by
  intro root below t o name
  have start : (openRoot nestedDisk root.path ()).result = .ok t := rfl
  have run := run_openRoot wellFormed_nestedDisk (p := root.path) (by decide +kernel)
  have listed : o.result = .ok [⟨name, 2⟩] := by decide +kernel
  have spec := (numbers_of_run start).2 wellFormed_nestedDisk _ run nestedDisk wellFormed_nestedDisk
    root (List.mem_singleton_self root) .directory _ listed _ (List.mem_singleton_self _)
  rw [if_pos (by decide +kernel)] at spec
  exact ⟨start, wellFormed_nestedDisk, run, listed, spec⟩

/-- The root path is just short enough to be looked up; below it nothing is. -/
theorem listed_beyond_pathLimit :
    let root : ExtractedDirectory := ⟨⟨0x63 :: List.replicate 4094 Path.slash⟩, rootIno⟩
    let t := PathTable.ofRoot root.path
    let o := list nestedDisk root .directory t
    (openRoot nestedDisk root.path ()).result = .ok t ∧
      (openDirectory nestedDisk rootIno t).result = .ok root ∧ ∃ e, o.result = .ok [e] ∧
      (subdirectory nestedDisk root e.name o.state).result =
        .error (.missing (.subdirectory e.name rootIno)) ∧
      (openDirectory nestedDisk e.ino o.state).result =
        .error (.missing (.notADirectory e.ino)) := by
  intro root t o
  have pos : 0 < 4094 := by decide
  have short : 4094 + 1 < Disk.pathLimit := by decide
  have inner : (Node.directory [([0x64], .directory [])]).WellFormed :=
    .directory (by decide) (by decide) (List.forall_mem_singleton.mpr
      (.directory (by decide) .nil (List.forall_mem_nil _)))
  obtain ⟨start, -, opened⟩ := opened_slashes pos short [([0x64], .directory [])]
  obtain ⟨e, listed⟩ : ∃ e, o.result = .ok [e] := by
    have entries : nestedDisk.listing root.path = .ok [([0x64], .directory [])] :=
      Disk.listing_eq_ok_iff.mpr
        ⟨_, node_slashes pos short _, by simp [Disk.sorted, Node.entries]⟩
    have run : o = _ := list_run nestedDisk root .directory t
    rw [run, entries]
    exact ⟨⟨_, _⟩, congrArg Outcome.result (takeEntries_cons root [0x64] [] t)⟩
  exact ⟨start, congrArg Outcome.result opened, e, listed,
    refused_slashes pos short inner (by decide) listed (List.mem_singleton_self e)⟩

end SaveContainer.Extracted
