import SaveContainer.Opener
import SaveContainer.Proofs.Containment
import SaveContainer.Proofs.Printing

/-!
What the log tells of handles while a container is printed. Main statement: a run that goes through
tells of the opening and of the release of every handle, the one nested in the other. A run that is
cut tells of the release of every directory all the same, but of no list that was open at the cut.
-/

namespace SaveContainer

/-- A directory of a container, or one of its lists. -/
inductive LogHandle where
  | directory (save : SaveKind) (ino : Ino)
  | list (ino : Ino) (kind : EntryKind)
  deriving DecidableEq

namespace LogHandle

def opening : LogHandle → Event
  | directory save ino => .openDirectory save ino
  | list ino kind => .openList ino kind

def release : LogHandle → Event
  | directory save ino => .releaseDirectory save ino
  | list ino kind => .releaseList ino kind

variable (x y : LogHandle)

@[simp] theorem opening_eq_opening : x.opening = y.opening ↔ x = y := by
  cases x <;> cases y <;> simp [opening]

@[simp] theorem release_eq_release : x.release = y.release ↔ x = y := by
  cases x <;> cases y <;> simp [release]

@[simp] theorem opening_ne_release : x.opening ≠ y.release := by
  cases x <;> cases y <;> simp [opening, release]

@[simp] theorem release_ne_opening : x.release ≠ y.opening :=
  (opening_ne_release y x).symm

end LogHandle

namespace Event

def isOfHandle : Event → Bool
  | openDirectory _ _ | releaseDirectory _ _ | openList _ _ | releaseList _ _ => true
  | _ => false

/-- Every release is that of the handle that was opened last among those not yet released, and in
the end none is left. -/
inductive Nested : List Event → Prop
  | nil : Nested []
  | cons (x : LogHandle) {inside rest : List Event} :
      Nested inside → Nested rest → Nested (x.opening :: inside ++ x.release :: rest)

/-- The same up to a cut, after which the directories that are open are released, innermost first.
The release of the lists that are open then, given from the outermost on, is not told. -/
inductive CutOff : List Event → List (Ino × EntryKind) → Prop
  | stop {events : List Event} : Nested events → CutOff events []
  | directory {before inside : List Event} {untold : List (Ino × EntryKind)} (save : SaveKind)
      (ino : Ino) : Nested before → CutOff inside untold →
      CutOff (before ++ openDirectory save ino :: inside ++ [releaseDirectory save ino]) untold
  | list {before inside : List Event} {untold : List (Ino × EntryKind)} (ino : Ino)
      (kind : EntryKind) : Nested before → CutOff inside untold →
      CutOff (before ++ openList ino kind :: inside) ((ino, kind) :: untold)

variable {events before : List Event} {untold : List (Ino × EntryKind)}

theorem Nested.append {later : List Event} (h : Nested events) (h' : Nested later) :
    Nested (events ++ later) := by
  induction h with
  | nil => exact h'
  | cons x inside _ _ ih =>
      have both := Nested.cons x inside ih
      simpa only [List.cons_append, List.append_assoc] using both

theorem Nested.wrap (x : LogHandle) (h : Nested events) :
    Nested (x.opening :: events ++ [x.release]) :=
  .cons x h .nil

theorem Nested.count (h : Nested events) (x : LogHandle) :
    events.count x.opening = events.count x.release := by
  induction h with
  | nil => rfl
  | cons y _ _ ih ih' =>
      simp only [List.cons_append, List.count_cons, List.count_append, ih, ih', beq_iff_eq,
        LogHandle.opening_eq_opening, LogHandle.release_eq_release, LogHandle.opening_ne_release,
        LogHandle.release_ne_opening, if_false]
      omega

theorem CutOff.after (h : CutOff events untold) (first : Nested before) :
    CutOff (before ++ events) untold := by
  cases h with
  | stop nested => exact .stop (first.append nested)
  | directory save ino nested inside =>
      have both := CutOff.directory save ino (first.append nested) inside
      simpa only [List.append_assoc] using both
  | list ino kind nested inside =>
      have both := CutOff.list ino kind (first.append nested) inside
      simpa only [List.append_assoc] using both

theorem CutOff.count (h : CutOff events untold) (ino : Ino) (kind : EntryKind) :
    events.count (openList ino kind) =
      events.count (releaseList ino kind) + untold.count (ino, kind) := by
  induction h with
  | stop nested => exact nested.count (.list ino kind)
  | directory _ _ nested _ ih =>
      have before := nested.count (.list ino kind)
      simp only [LogHandle.opening, LogHandle.release] at before
      simp [ih, before]
      omega
  | list _ _ nested _ ih =>
      have before := nested.count (.list ino kind)
      simp only [LogHandle.opening, LogHandle.release] at before
      simp [List.count_cons, ih, before]
      omega

theorem CutOff.directory_count (h : CutOff events untold) (save : SaveKind) (ino : Ino) :
    events.count (openDirectory save ino) = events.count (releaseDirectory save ino) := by
  induction h with
  | stop nested => exact nested.count (.directory save ino)
  | directory _ _ nested _ ih =>
      have before := nested.count (.directory save ino)
      simp only [LogHandle.opening, LogHandle.release] at before
      simp [List.count_cons, ih, before]
  | list _ _ nested _ ih =>
      have before := nested.count (.directory save ino)
      simp only [LogHandle.opening, LogHandle.release] at before
      simp [ih, before]

theorem CutOff.nested_iff (h : CutOff events untold) : Nested events ↔ untold = [] := by
  constructor
  · intro nested
    rw [List.eq_nil_iff_forall_not_mem]
    intro (ino, kind) mem
    have cut := h.count ino kind
    have told := nested.count (.list ino kind)
    simp only [LogHandle.opening, LogHandle.release] at told
    have pos : 0 < untold.count (ino, kind) := List.count_pos_iff.mpr mem
    omega
  · intro all
    induction h with
    | stop nested => exact nested
    | directory save ino nested _ ih =>
        have inside := (ih all).wrap (.directory save ino)
        simpa only [LogHandle.opening, LogHandle.release, List.append_assoc] using
          nested.append inside
    | list => cases all

/-- How the log goes on handles in a run with this result. -/
inductive Told : Except Fault Unit → List Event → Prop
  | whole {events : List Event} : Nested events → Told (.ok ()) events
  | cut {e : Fault} {events : List Event} {untold : List (Ino × EntryKind)} :
      CutOff events untold → Told (.error e) events

namespace Told

variable {r : Except Fault Unit}

theorem silent (r : Except Fault Unit) : Told r [] := by
  cases r with
  | ok _ => exact .whole .nil
  | error _ => exact .cut (.stop .nil)

theorem after (h : Told r events) (first : Nested before) : Told r (before ++ events) := by
  cases h with
  | whole nested => exact .whole (first.append nested)
  | cut cut => exact .cut (cut.after first)

theorem inDirectory (h : Told r events) (save : SaveKind) (ino : Ino) :
    Told r (openDirectory save ino :: events ++ [releaseDirectory save ino]) := by
  cases h with
  | whole nested => exact .whole (nested.wrap (.directory save ino))
  | cut cut => exact .cut (.directory save ino .nil cut)

end Told

end Event

/-- What the log tells of handles. -/
def Trace.handleEvents (t : Trace) : List Event :=
  t.events.filter Event.isOfHandle

namespace Trace

@[simp] theorem handleEvents_append (t u : Trace) :
    handleEvents (t ++ u) = handleEvents t ++ handleEvents u := by
  simp only [handleEvents, events_append, List.filter_append]

theorem handleEvents_of_silent {t : Trace} (h : t.events = []) : t.handleEvents = [] := by
  rw [handleEvents, h, List.filter_nil]

end Trace

namespace Hierarchy

open Event

variable {σ D : Type}

/-- What the log tells when a directory is asked for. -/
def openingEvents (save : SaveKind) (ino : D → Ino) : Except Fault D → List Event
  | .ok d => [.openDirectory save (ino d)]
  | .error _ => []

/-- The container itself tells of its directories, and of nothing else. -/
structure Logs (h : Hierarchy σ D) (save : SaveKind) : Prop where
  root : ∀ s, (h.root s).trace.events = openingEvents save h.ino (h.root s).result
  subdirectory : ∀ d n s,
    (h.subdirectory d n s).trace.events = openingEvents save h.ino (h.subdirectory d n s).result
  list : ∀ d kind s, (h.list d kind s).trace.events = []
  gotEntry : ∀ d kind i, (h.gotEntry d kind i).events = []
  releasedList : ∀ d kind, (h.releasedList d kind).events = []
  released : ∀ d, (h.released d).events = [.releaseDirectory save (h.ino d)]

/-- Whatever state an act starts in, the log accounts for its handles. -/
def Tells (m : Act (σ × Sink) Unit) : Prop :=
  ∀ s, Told (m s).result (m s).trace.handleEvents

theorem Tells.seq {m m' : Act (σ × Sink) Unit} (first : Tells m) (second : Tells m') :
    Tells (do m; m') := by
  intro s
  have ended := first s
  cases hm : (m s).result with
  | error e =>
      rw [hm] at ended
      rw [Act.bind_of_error hm]
      exact ended
  | ok u =>
      rw [hm] at ended
      rw [Act.bind_of_ok hm, Trace.handleEvents_append]
      cases ended with
      | whole nested => exact (second (m s).state).after nested

theorem tells_of_silent {m : Act (σ × Sink) Unit} (h : ∀ s, (m s).trace.handleEvents = []) :
    Tells m := by
  intro s
  rw [h s]
  exact .silent _

theorem writeLine_events (depth : Nat) (kind : EntryKind) (name : ShortName) (s : σ × Sink) :
    (writeLine depth kind name s).trace.events = [] := by
  rw [writeLine_run]
  exact Sink.writeAll_events _ _

theorem tells_printFile (depth : Nat) (e : Entry) : Tells (σ := σ) (printFile depth e) := by
  refine tells_of_silent fun s => ?_
  rw [printFile_run, Trace.handleEvents, Trace.events_cons_event, writeLine_events]
  rfl

namespace Logs

variable {h : Hierarchy σ D} {save : SaveKind} (logs : h.Logs save)
include logs

theorem tells_overEntries (d : D) (kind : EntryKind) {body : Entry → Act (σ × Sink) Unit}
    (each : ∀ e, Tells (body e)) (start : Nat) (entries : List Entry) :
    Tells (h.overEntries d kind body start entries) := by
  induction entries generalizing start with
  | nil => exact tells_of_silent fun _ => rfl
  | cons e rest ih =>
      rw [overEntries_cons]
      have got := tells_of_silent (σ := σ) (m := Act.notes (h.gotEntry d kind start)) fun _ =>
        Trace.handleEvents_of_silent (logs.gotEntry d kind start)
      exact (got.seq (each e)).seq (ih (start + 1))

/-- The release of a list is told only if all of its entries were gone through. -/
theorem tells_forEntries (depth : Nat) (d : D) (kind : EntryKind)
    {body : Entry → Act (σ × Sink) Unit} (each : ∀ e, Tells (body e)) :
    Tells (h.forEntries depth d kind body) := by
  intro s
  have silent := Trace.handleEvents_of_silent (logs.list d kind s.1)
  cases listed : (h.list d kind s.1).result with
  | error e =>
      rw [forEntries_of_error listed, silent]
      exact .silent _
  | ok entries =>
      have loop := logs.tells_overEntries d kind each 0 entries ((h.list d kind s.1).state, s.2)
      have ends := Trace.handleEvents_of_silent (logs.releasedList d kind)
      rw [forEntries_of_ok listed]
      generalize h.overEntries d kind body 0 entries ((h.list d kind s.1).state, s.2) = o at loop ⊢
      obtain ⟨result, state, trace⟩ := o
      rw [Trace.handleEvents_append, Trace.handleEvents_append, silent, ends, List.append_nil]
      cases loop with
      | whole nested =>
          have list := nested.wrap (.list (h.ino d) kind)
          refine .whole ?_
          simpa [Trace.handleEvents, listEnd, List.filter_cons, LogHandle.opening,
            LogHandle.release, isOfHandle] using list
      | @cut _ _ untold cut =>
          have list := CutOff.list (h.ino d) kind .nil cut
          refine .cut (?_ : CutOff _ ((h.ino d, kind) :: untold))
          simpa [Trace.handleEvents, listEnd, List.filter_cons, isOfHandle] using list

theorem told_open {child : D} {r : Except Fault D} {opening inside : Trace}
    {result : Except Fault Unit} (ok : r = .ok child)
    (opened : opening.events = openingEvents save h.ino r)
    (told : Told result inside.handleEvents) :
    Told result (opening ++ (inside ++ h.released child)).handleEvents := by
  have directory := told.inDirectory save (h.ino child)
  rw [Trace.handleEvents_append, Trace.handleEvents_append, Trace.handleEvents,
    Trace.handleEvents.eq_1 (h.released child), opened, ok, logs.released]
  exact directory

theorem tells_printDirectory {levels : Nat} (below : ∀ depth c, Tells (h.printWithin levels depth c))
    (depth : Nat) (d : D) (e : Entry) : Tells (h.printDirectory levels depth d e) := by
  intro s
  have silent := Trace.handleEvents_of_silent (writeLine_events depth .directory e.name s)
  cases line : (writeLine depth .directory e.name s).result with
  | error f =>
      rw [printDirectory_of_unwritten line, silent]
      exact .silent _
  | ok u =>
      have entered := logs.subdirectory d e.name (writeLine depth .directory e.name s).state.1
      cases sub : (h.subdirectory d e.name (writeLine depth .directory e.name s).state.1).result with
      | error f =>
          rw [sub] at entered
          rw [printDirectory_of_unopened line sub, Trace.handleEvents_append, silent,
            Trace.handleEvents_of_silent entered]
          exact .silent _
      | ok c =>
          rw [printDirectory_of_opened line sub, Trace.handleEvents_append, silent]
          exact logs.told_open sub entered (below (depth + 1) c _)

/-- By induction on the levels left. -/
theorem tells_printWithin (levels depth : Nat) (d : D) : Tells (h.printWithin levels depth d) := by
  induction levels generalizing depth d with
  | zero => exact tells_of_silent fun _ => rfl
  | succ levels ih =>
      rw [printWithin_succ]
      exact (logs.tells_forEntries depth d .directory (logs.tells_printDirectory ih depth d)).seq
        (logs.tells_forEntries depth d .file (tells_printFile depth))

theorem tells_walk : Tells h.walk := by
  intro s
  have opened := logs.root s.1
  rw [walk]
  cases root : (h.root s.1).result with
  | error e =>
      have failed : (h.root.onFirst s).result = .error e := root
      rw [root] at opened
      rw [Act.bind_of_error failed, Act.onFirst_run, Trace.handleEvents_of_silent opened]
      exact .silent _
  | ok d =>
      have done : (h.root.onFirst s).result = .ok d := root
      rw [Act.bind_of_ok done, Act.onFirst_run, Act.closing_run]
      exact logs.told_open root opened (logs.tells_printWithin (maxDepth + 1) 0 d _)

theorem tells_print : Tells h.print := by
  rw [print_eq_walk]
  refine logs.tells_walk.seq (tells_of_silent fun s => ?_)
  rw [Act.onSecond_run]
  rfl

end Logs

end Hierarchy

open Hierarchy

theorem Packed.logs (σ : Type) (c : Catalogue) : (hierarchy σ c).Logs .archive where
  root := by
    intro s
    change (openDirectory c rootIno s).trace.events =
      openingEvents .archive id (openDirectory c rootIno s).result
    unfold openDirectory
    split <;> rfl
  subdirectory := by
    intro ino n s
    change (subdirectory c ino n s).trace.events =
      openingEvents .archive id (subdirectory c ino n s).result
    unfold subdirectory
    cases c.number? ino n with
    | none => rfl
    | some child => cases directory : c.isDirectory child <;> simp only [directory] <;> rfl
  list := by
    intro ino kind s
    change (list c ino kind s).trace.events = []
    unfold list
    split <;> rfl
  gotEntry _ _ _ := rfl
  releasedList _ _ := rfl
  released _ := rfl

namespace Extracted

theorem takeEntries_events (d : ExtractedDirectory) (names : List FileName) (t : PathTable) :
    (takeEntries d names t).trace.events = [] := by
  induction names generalizing t with
  | nil => rfl
  | cons raw rest ih =>
      rw [takeEntries_cons]
      split
      · rfl
      · exact ih _

theorem logs (disk : Disk) : (hierarchy disk).Logs .directory where
  root := by
    intro t
    change (openDirectory disk rootIno t).trace.events =
      openingEvents .directory _ (openDirectory disk rootIno t).result
    rw [openDirectory_run]
    cases t.path? rootIno with
    | none => rfl
    | some path =>
        dsimp only
        split <;> rfl
  subdirectory := by
    intro d n t
    change (subdirectory disk d n t).trace.events =
      openingEvents .directory _ (subdirectory disk d n t).result
    rw [subdirectory_run]
    split <;> rfl
  list := by
    intro d kind t
    change (list disk d kind t).trace.events = []
    rw [list_run]
    split
    · rfl
    · exact takeEntries_events d _ t
  gotEntry _ _ _ := rfl
  releasedList _ _ := rfl
  released _ := rfl

end Extracted

/-- What the log says of handles in a run with this result; `untold` are the lists that were open
when it ended. -/
structure Event.Accounts (r : Except Fault Unit) (events : List Event)
    (untold : List (Ino × EntryKind)) : Prop where
  cut : CutOff events untold
  whole : r = .ok () → untold = []
  nested : Nested events ↔ untold = []
  directories : ∀ save ino,
    events.count (openDirectory save ino) = events.count (releaseDirectory save ino)
  lists : ∀ ino kind, events.count (openList ino kind) =
    events.count (releaseList ino kind) + untold.count (ino, kind)

theorem Event.Told.accounts {r : Except Fault Unit} {events : List Event} (h : Told r events) :
    ∃ untold, Accounts r events untold := by
  cases h with
  | whole nested =>
      have cut := CutOff.stop nested
      exact ⟨[], cut, fun _ => rfl, cut.nested_iff, cut.directory_count, cut.count⟩
  | @cut _ _ untold cut =>
      exact ⟨untold, cut, nofun, cut.nested_iff, cut.directory_count, cut.count⟩

/-- Handles are nested in the log of every run that no open list is cut off in. Directories are
always accounted for. -/
theorem Save.handles_of_printing (w : World) (k : Sink) :
    (∀ save : Save, let o := save.print (w, k)
      ∃ untold, Event.Accounts o.result o.trace.handleEvents untold) ∧
    ∀ (d : OpenDirectory) (depth : Nat), let o := d.printBelow depth (w, k)
      ∃ untold, Event.Accounts o.result o.trace.handleEvents untold := by
  constructor
  · intro save
    cases save with
    | extracted place => exact ((Extracted.logs w.disk).tells_print (w.table place, k)).accounts
    | packed c => exact ((Packed.logs World c).tells_print (w, k)).accounts
  · intro d depth
    cases d with
    | extracted place d =>
        exact ((Extracted.logs w.disk).tells_printWithin (maxDepth + 1 - depth) depth d
          (w.table place, k)).accounts
    | packed c ino =>
        exact ((Packed.logs World c).tells_printWithin (maxDepth + 1 - depth) depth ino
          (w, k)).accounts

/-- A directory that is too deep is opened and released; the list that it was found in is not. -/
theorem OpenDirectory.printBelow_tooDeep :
    let disk : Disk := ⟨.directory [([0x73], .directory [([0x61], .directory [])])], []⟩
    let root : ExtractedDirectory := ⟨⟨[0x73]⟩, rootIno⟩
    let o := (extracted 0 root).printBelow maxDepth (⟨disk, #[.ofRoot root.path]⟩, .unlimited)
    o.result = .error (.corrupt (.directoryTooDeep 2)) ∧
      o.trace.handleEvents = [.openList rootIno .directory, .openDirectory .directory 2,
        .releaseDirectory .directory 2] ∧
      ¬Event.Nested o.trace.handleEvents := by
  intro disk root o
  have events : o.trace.handleEvents = [.openList rootIno .directory,
      .openDirectory .directory 2, .releaseDirectory .directory 2] := by
    decide +kernel
  refine ⟨by decide +kernel, events, fun nested => ?_⟩
  have balanced := nested.count (.list rootIno .directory)
  rw [events] at balanced
  simp [LogHandle.opening, LogHandle.release] at balanced

end SaveContainer
