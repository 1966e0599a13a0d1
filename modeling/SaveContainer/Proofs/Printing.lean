import SaveContainer.Proofs.Sink
import SaveContainer.Proofs.Tree
import SaveContainer.Hierarchy

/-!
Printing a container that can be read as a view. Main statement: with a sink that takes
everything, printing a directory ends with a result exactly when the directory unfolds to a tree
that is not higher than the levels left allow, and then the tree has been written.
-/

namespace SaveContainer

theorem Tree.encode_entryLine (depth : Nat) (sign : Char) (name : ShortName) :
    Utf8.encode (entryLine depth sign name).toList = Utf8.encode (Tree.line depth sign name) := by
  simp [entryLine, Tree.line]

namespace Hierarchy

variable {σ D K : Type} {h : Hierarchy σ D}

theorem writeLine_run (depth : Nat) (kind : EntryKind) (name : ShortName) (s : σ × Sink) :
    let o := Sink.writeAll (Utf8.encode (Tree.line depth kind.marker name)) s.2
    writeLine depth kind name s = ⟨o.result, (s.1, o.state), o.trace⟩ := by
  simp only [writeLine, Act.onSecond_run, Tree.encode_entryLine]

theorem writeLine_calls (depth : Nat) (kind : EntryKind) (name : ShortName) (s : σ × Sink) :
    (writeLine depth kind name s).trace.calls = [] := by
  rw [writeLine_run]
  exact Sink.writeAll_calls _ _

theorem writeLine_error {depth : Nat} {kind : EntryKind} {name : ShortName} {s : σ × Sink}
    {e : Fault} (h : (writeLine depth kind name s).result = .error e) : ∃ cause, e = .io cause := by
  rw [writeLine_run] at h
  exact Sink.writeAll_error h

/-- What a listing that was gone through leaves in the log at its end. -/
def listEnd (ino : Ino) (kind : EntryKind) : Except Fault Unit → Trace
  | .ok _ => [.event (.releaseList ino kind)]
  | .error _ => []

@[simp] theorem listEnd_calls (ino : Ino) (kind : EntryKind) (r : Except Fault Unit) :
    (listEnd ino kind r).calls = [] := by
  cases r <;> rfl

@[simp] theorem listEnd_written (ino : Ino) (kind : EntryKind) (r : Except Fault Unit) :
    (listEnd ino kind r).written = [] := by
  cases r <;> rfl

section ForEntries

variable {depth : Nat} {d : D} {kind : EntryKind} {body : Entry → Act (σ × Sink) Unit}
  {s : σ × Sink}

/-- The loop over the entries of an open list. -/
def overEntries (h : Hierarchy σ D) (d : D) (kind : EntryKind)
    (body : Entry → Act (σ × Sink) Unit) (start : Nat) (entries : List Entry) :
    Act (σ × Sink) Unit :=
  eachEntry (fun i e => do Act.notes (h.gotEntry d kind i); body e) start entries

@[simp] theorem overEntries_nil (start : Nat) :
    h.overEntries d kind body start [] s = ⟨.ok (), s, []⟩ := rfl

theorem overEntries_cons (start : Nat) (e : Entry) (rest : List Entry) :
    h.overEntries d kind body start (e :: rest) = (do
      (do Act.notes (h.gotEntry d kind start); body e)
      h.overEntries d kind body (start + 1) rest) := rfl

theorem overEntries_cons_of_error {start : Nat} {e : Entry} {rest : List Entry} {f : Fault}
    (failed : (body e s).result = .error f) :
    h.overEntries d kind body start (e :: rest) s =
      ⟨.error f, (body e s).state, h.gotEntry d kind start ++ (body e s).trace⟩ := by
  rw [overEntries_cons, Act.bind_of_error (by rw [Act.notes_bind]; exact failed), Act.notes_bind]

theorem overEntries_cons_of_ok {start : Nat} {e : Entry} {rest : List Entry}
    (done : (body e s).result = .ok ()) :
    let o := h.overEntries d kind body (start + 1) rest (body e s).state
    h.overEntries d kind body start (e :: rest) s =
      ⟨o.result, o.state, h.gotEntry d kind start ++ (body e s).trace ++ o.trace⟩ := by
  rw [overEntries_cons, Act.bind_of_ok (by rw [Act.notes_bind]; exact done), Act.notes_bind]

theorem forEntries_of_error {e : Fault} (failed : (h.list d kind s.1).result = .error e) :
    h.forEntries depth d kind body s = ⟨.error (.list (h.ino d) kind e),
      ((h.list d kind s.1).state, s.2), (h.list d kind s.1).trace⟩ := by
  simp only [forEntries]
  exact Act.bind_of_error (by simp only [Act.onFirst_run, Act.mapFault_run, failed]; rfl)

theorem forEntries_of_ok {entries : List Entry}
    (listed : (h.list d kind s.1).result = .ok entries) :
    let o := h.overEntries d kind body 0 entries ((h.list d kind s.1).state, s.2)
    h.forEntries depth d kind body s = ⟨o.result, o.state,
      (h.list d kind s.1).trace ++
        (.event (.openList (h.ino d) kind) ::
          .event (.listed (h.ino d) depth kind entries.length) ::
            (o.trace ++ listEnd (h.ino d) kind o.result) ++ h.releasedList d kind)⟩ := by
  intro o
  have run : (((h.list d kind).mapFault (.list (h.ino d) kind)).onFirst s).result
      = .ok entries := by
    simp only [Act.onFirst_run, Act.mapFault_run, listed]; rfl
  simp only [forEntries]
  rw [Act.bind_of_ok run]
  simp only [Act.onFirst_run, Act.mapFault_run, Act.closing_run, Act.log_bind]
  change Outcome.mk _ _ _ = Outcome.mk o.result o.state _
  cases ho : o.result with
  | error e => rw [Act.bind_of_error ho]; simp [listEnd, o, overEntries]
  | ok u => rw [Act.bind_of_ok ho]; simp [listEnd, o, overEntries]

end ForEntries

/-- What is done with a sub-directory of `d` when `levels` levels are left for it. -/
def printDirectory (h : Hierarchy σ D) (levels depth : Nat) (d : D) (e : Entry) :
    Act (σ × Sink) Unit := do
  writeLine depth .directory e.name
  let child ← ((h.subdirectory d e.name).mapFault (.enter e.name)).onFirst
  (h.printWithin levels (depth + 1) child).closing (h.released child)

def printFile (depth : Nat) (e : Entry) : Act (σ × Sink) Unit := do
  Act.log (.file e.ino)
  writeLine depth .file e.name

theorem printFile_run (depth : Nat) (e : Entry) (s : σ × Sink) :
    let o := writeLine depth .file e.name s
    printFile depth e s = ⟨o.result, o.state, .event (.file e.ino) :: o.trace⟩ := rfl

theorem printFile_calls (depth : Nat) (e : Entry) (s : σ × Sink) :
    (printFile depth e s).trace.calls = [] := by
  rw [printFile_run, Trace.calls_cons_event]
  exact writeLine_calls depth .file e.name s

theorem printFile_error {depth : Nat} {entry : Entry} {s : σ × Sink} {e : Fault}
    (h : (printFile depth entry s).result = .error e) : ∃ cause, e = .io cause := by
  rw [printFile_run] at h
  dsimp only at h
  exact writeLine_error h

theorem printWithin_succ (levels depth : Nat) (d : D) :
    h.printWithin (levels + 1) depth d = (do
      h.forEntries depth d .directory (h.printDirectory levels depth d)
      h.forEntries depth d .file (printFile depth)) := rfl

/-- Printing the whole container, up to where the sink is flushed. -/
def walk (h : Hierarchy σ D) : Act (σ × Sink) Unit := do
  let d ← h.root.onFirst
  (h.printBelow 0 d).closing (h.released d)

theorem print_eq_walk (h : Hierarchy σ D) :
    h.print = (do h.walk; Sink.flush.onSecond) :=
  (Act.bind_assoc _ _ _).symm

theorem print_of_walked {s : σ × Sink} (done : (h.walk s).result = .ok ()) :
    h.print s = ⟨if (h.walk s).state.2.flushFails then .error (.io .flushFailed) else .ok (),
      (h.walk s).state, (h.walk s).trace ++ [.call .flushed]⟩ := by
  rw [print_eq_walk, Act.bind_of_ok done]
  simp only [Act.onSecond_run, Sink.flush]

theorem print_of_stopped {s : σ × Sink} {e : Fault} (failed : (h.walk s).result = .error e) :
    h.print s = ⟨.error e, (h.walk s).state, (h.walk s).trace⟩ := by
  rw [print_eq_walk, Act.bind_of_error failed]

/-- The text is what is printed into memory. -/
theorem text_run (s : σ) :
    let o := h.print (s, Sink.unlimited)
    h.text s = ⟨o.result.map fun _ => o.trace.text, o.state.1, o.trace.unwritten⟩ := by
  intro o
  have run : (Sink.buffered h.print s).result = .ok (o.result, o.trace.text) := rfl
  rw [text, Act.bind_of_ok run]
  exact congrArg (Outcome.mk _ _) (List.append_nil _)

section PrintDirectory

variable {levels depth : Nat} {d : D} {e : Entry} {s : σ × Sink}

theorem printDirectory_of_unwritten {f : Fault}
    (failed : (writeLine depth .directory e.name s).result = .error f) :
    h.printDirectory levels depth d e s = ⟨.error f,
      (writeLine depth .directory e.name s).state, (writeLine depth .directory e.name s).trace⟩ :=
  Act.bind_of_error failed

theorem printDirectory_of_unopened {f : Fault}
    (line : (writeLine depth .directory e.name s).result = .ok ())
    (failed : (h.subdirectory d e.name (writeLine depth .directory e.name s).state.1).result
      = .error f) :
    let w := writeLine depth .directory e.name s
    let o := h.subdirectory d e.name w.state.1
    h.printDirectory levels depth d e s =
      ⟨.error (.enter e.name f), (o.state, w.state.2), w.trace ++ o.trace⟩ := by
  have run : (((h.subdirectory d e.name).mapFault (.enter e.name)).onFirst
      (writeLine depth .directory e.name s).state).result = .error (.enter e.name f) := by
    simp only [Act.onFirst_run, Act.mapFault_run, failed]; rfl
  simp only [printDirectory]
  rw [Act.bind_of_ok line, Act.bind_of_error run]
  rfl

theorem printDirectory_of_opened {c : D}
    (line : (writeLine depth .directory e.name s).result = .ok ())
    (opened : (h.subdirectory d e.name (writeLine depth .directory e.name s).state.1).result
      = .ok c) :
    let w := writeLine depth .directory e.name s
    let o := h.subdirectory d e.name w.state.1
    let p := h.printWithin levels (depth + 1) c (o.state, w.state.2)
    h.printDirectory levels depth d e s =
      ⟨p.result, p.state, w.trace ++ (o.trace ++ (p.trace ++ h.released c))⟩ := by
  have run : (((h.subdirectory d e.name).mapFault (.enter e.name)).onFirst
      (writeLine depth .directory e.name s).state).result = .ok c := by
    simp only [Act.onFirst_run, Act.mapFault_run, opened]; rfl
  simp only [printDirectory]
  rw [Act.bind_of_ok line, Act.bind_of_ok run]
  rfl

end PrintDirectory

/-- The container shows exactly what the view says, as long as its state keeps `inv`, and writes
nothing while it is asked. Faults and numbers may depend on the state, names may not. -/
structure Presents (h : Hierarchy σ D) (v : View K) (key : D → K) (inv : σ → Prop) : Prop where
  list : ∀ d kind s, inv s →
    inv (h.list d kind s).state ∧ (h.list d kind s).trace.written = [] ∧
      (h.list d kind s).result.toOption.map (List.map Entry.name) = v.names (key d) kind
  enter : ∀ d s subs, inv s → v.directories (key d) = some subs → ∀ sub ∈ subs,
    inv (h.subdirectory d sub.1 s).state ∧ (h.subdirectory d sub.1 s).trace.written = [] ∧
      (h.subdirectory d sub.1 s).result.toOption.map key = some sub.2
  gotEntry : ∀ d kind i, (h.gotEntry d kind i).written = []
  releasedList : ∀ d kind, (h.releasedList d kind).written = []
  released : ∀ d, (h.released d).written = []

/-- The same for the directories in `good`, which lead to none but such. -/
structure PresentsOn (h : Hierarchy σ D) (v : View K) (key : D → K) (inv : σ → Prop)
    (good : D → Prop) : Prop where
  list : ∀ d kind s, good d → inv s →
    inv (h.list d kind s).state ∧ (h.list d kind s).trace.written = [] ∧
      (h.list d kind s).result.toOption.map (List.map Entry.name) = v.names (key d) kind
  enter : ∀ d s subs, good d → inv s → v.directories (key d) = some subs → ∀ sub ∈ subs,
    inv (h.subdirectory d sub.1 s).state ∧ (h.subdirectory d sub.1 s).trace.written = [] ∧
      ∃ c, (h.subdirectory d sub.1 s).result = .ok c ∧ key c = sub.2 ∧ good c
  gotEntry : ∀ d kind i, (h.gotEntry d kind i).written = []
  releasedList : ∀ d kind, (h.releasedList d kind).written = []
  released : ∀ d, (h.released d).written = []

theorem Presents.on {v : View K} {key : D → K} {inv : σ → Prop} (pres : h.Presents v key inv) :
    h.PresentsOn v key inv fun _ => True where
  list d kind s _ := pres.list d kind s
  enter d s subs _ hs listed sub mem := by
    obtain ⟨keeps, silent, entered⟩ := pres.enter d s subs hs listed sub mem
    refine ⟨keeps, silent, ?_⟩
    cases hr : (h.subdirectory d sub.1 s).result with
    | error e => simp [hr, Except.toOption] at entered
    | ok c => exact ⟨c, rfl, by simpa [hr, Except.toOption] using entered, trivial⟩
  gotEntry := pres.gotEntry
  releasedList := pres.releasedList
  released := pres.released

/-- The container keeps `inv` and the sink is `k`. -/
def Ready (inv : σ → Prop) (k : Sink) (s : σ × Sink) : Prop :=
  inv s.1 ∧ s.2 = k

/-- Printing went through and all of `text` was written. -/
structure Wrote (inv : σ → Prop) (k : Sink) (o : Outcome (σ × Sink) Unit) (text : List Char) :
    Prop where
  result : o.result = .ok ()
  ready : Ready inv k o.state
  written : o.trace.written = Utf8.encode text

/-- Printing ended with a fault. -/
def Stopped (inv : σ → Prop) (o : Outcome (σ × Sink) Unit) : Prop :=
  (∃ e, o.result = .error e) ∧ inv o.state.1

section Print

variable {v : View K} {key : D → K} {inv : σ → Prop} {k : Sink}

theorem wrote_writeLine (hk : k.AcceptsAll) (depth : Nat) (kind : EntryKind) (name : ShortName)
    {s : σ × Sink} (hs : Ready inv k s) :
    Wrote inv k (writeLine depth kind name s) (Tree.line depth kind.marker name) := by
  obtain ⟨hinv, rfl⟩ := hs
  obtain ⟨result, state, written⟩ := hk.writeAll (Utf8.encode (Tree.line depth kind.marker name))
  rw [writeLine_run]
  exact ⟨result, ⟨hinv, state⟩, written⟩

theorem wrote_overEntries_nil (h : Hierarchy σ D) (d : D) (kind : EntryKind)
    (body : Entry → Act (σ × Sink) Unit) (start : Nat) {s : σ × Sink} (hs : Ready inv k s) :
    Wrote inv k (h.overEntries d kind body start [] s) [] := by
  rw [overEntries_nil]
  exact ⟨rfl, hs, rfl⟩

theorem wrote_overEntries_cons {d : D} {kind : EntryKind} {body : Entry → Act (σ × Sink) Unit}
    {start : Nat} {e : Entry} {rest : List Entry} {s : σ × Sink} {text text' : List Char}
    {inv' : σ → Prop} (silent : (h.gotEntry d kind start).written = [])
    (first : Wrote inv' k (body e s) text)
    (others : Wrote inv k (h.overEntries d kind body (start + 1) rest (body e s).state) text') :
    Wrote inv k (h.overEntries d kind body start (e :: rest) s) (text ++ text') := by
  rw [overEntries_cons_of_ok first.result]
  refine ⟨others.result, others.ready, ?_⟩
  simp only [Trace.written_append, silent, first.written, others.written, List.nil_append,
    Utf8.encode_append]

theorem wrote_files (hk : k.AcceptsAll) (depth : Nat) (d : D) (start : Nat) (entries : List Entry)
    (silent : ∀ i, (h.gotEntry d .file i).written = []) {s : σ × Sink} (hs : Ready inv k s) :
    Wrote inv k (h.overEntries d .file (printFile depth) start entries s)
      ((entries.map Entry.name).flatMap (Tree.line depth '-')) := by
  induction entries generalizing start s with
  | nil => exact wrote_overEntries_nil h d .file _ start hs
  | cons e rest ih =>
      have first : Wrote inv k (printFile depth e s) (Tree.line depth '-' e.name) := by
        have line := wrote_writeLine hk depth .file e.name hs
        rw [EntryKind.marker] at line
        rw [printFile_run]
        generalize writeLine depth .file e.name s = o at line ⊢
        refine ⟨line.result, line.ready, ?_⟩
        rw [Trace.written_cons_event]
        exact line.written
      rw [List.map_cons, List.flatMap_cons]
      exact wrote_overEntries_cons (silent start) first (ih (start + 1) first.ready)

/-- Going through a list writes what going through its entries does. -/
theorem wrote_forEntries (depth : Nat) {d : D} {kind : EntryKind}
    {body : Entry → Act (σ × Sink) Unit} {s : σ × Sink} {entries : List Entry} {text : List Char}
    (listed : (h.list d kind s.1).result = .ok entries)
    (silent : (h.list d kind s.1).trace.written = [])
    (released : (h.releasedList d kind).written = [])
    (wrote : Wrote inv k
      (h.overEntries d kind body 0 entries ((h.list d kind s.1).state, s.2)) text) :
    Wrote inv k (h.forEntries depth d kind body s) text := by
  rw [forEntries_of_ok listed]
  refine ⟨wrote.result, wrote.ready, ?_⟩
  simp only [Trace.written_append, Trace.written_cons_event, List.cons_append, silent,
    listEnd_written, released, wrote.written, List.nil_append, List.append_nil]

theorem Wrote.seq {m m' : Act (σ × Sink) Unit} {s : σ × Sink} {text text' : List Char}
    {inv' : σ → Prop} (first : Wrote inv' k (m s) text) (second : Wrote inv k (m' (m s).state) text') :
    Wrote inv k ((do m; m') s) (text ++ text') := by
  rw [Act.bind_of_ok first.result]
  exact ⟨second.result, second.ready, by
    simp only [Trace.written_append, first.written, second.written, Utf8.encode_append]⟩

theorem Wrote.then_stopped {m m' : Act (σ × Sink) Unit} {s : σ × Sink} {text : List Char}
    (first : Wrote inv k (m s) text) (second : Stopped inv (m' (m s).state)) :
    Stopped inv ((do m; m') s) := by
  rw [Act.bind_of_ok first.result]
  exact second

theorem Stopped.seq {m m' : Act (σ × Sink) Unit} {s : σ × Sink} (first : Stopped inv (m s)) :
    Stopped inv ((do m; m') s) := by
  obtain ⟨⟨e, he⟩, hinv⟩ := first
  rw [Act.bind_of_error he]
  exact ⟨⟨e, rfl⟩, hinv⟩

section PresentsOn

variable {good : D → Prop} (pres : h.PresentsOn v key inv good)
include pres

theorem PresentsOn.forEntries_unlisted (depth : Nat) {d : D} (hd : good d) (kind : EntryKind)
    (body : Entry → Act (σ × Sink) Unit) {s : σ × Sink} (hs : Ready inv k s)
    (unlisted : v.names (key d) kind = none) :
    Stopped inv (h.forEntries depth d kind body s) := by
  obtain ⟨hinv, -, names⟩ := pres.list d kind s.1 hd hs.1
  rw [unlisted] at names
  cases hl : (h.list d kind s.1).result with
  | error e =>
      rw [forEntries_of_error hl]
      exact ⟨⟨_, rfl⟩, hinv⟩
  | ok entries => simp [hl, Except.toOption] at names

/-- Going through a list is going through its entries, from a state that is ready. -/
theorem PresentsOn.forEntries_listed (depth : Nat) {d : D} (hd : good d) (kind : EntryKind)
    (body : Entry → Act (σ × Sink) Unit) {s : σ × Sink} (hs : Ready inv k s)
    {names : List ShortName} (listed : v.names (key d) kind = some names) :
    ∃ entries s', entries.map Entry.name = names ∧ Ready inv k s' ∧
      (∀ text, Wrote inv k (h.overEntries d kind body 0 entries s') text →
        Wrote inv k (h.forEntries depth d kind body s) text) ∧
      (Stopped inv (h.overEntries d kind body 0 entries s') →
        Stopped inv (h.forEntries depth d kind body s)) := by
  obtain ⟨hinv, silent, shown⟩ := pres.list d kind s.1 hd hs.1
  rw [listed] at shown
  cases hl : (h.list d kind s.1).result with
  | error e => simp [hl, Except.toOption] at shown
  | ok entries =>
      have hnames : entries.map Entry.name = names := by
        simpa [hl, Except.toOption] using shown
      refine ⟨entries, ((h.list d kind s.1).state, s.2), hnames, ⟨hinv, hs.2⟩, ?_, ?_⟩
      · intro text wrote
        exact wrote_forEntries depth hl silent (pres.releasedList d kind) wrote
      · intro stopped
        rw [forEntries_of_ok hl]
        exact stopped

/-- How printing a directory ends when `levels` levels are left. -/
def Shown (v : View K) (inv : σ → Prop) (k : Sink) (levels depth : Nat) (a : K)
    (o : Outcome (σ × Sink) Unit) : Prop :=
  (∃ t, v.Unfolds a t ∧ t.height < levels ∧ Wrote inv k o (t.render depth)) ∨
    (Stopped inv o ∧ ∀ t, v.Unfolds a t → levels ≤ t.height)

/-- The same for the sub-directories alone, when the directory has these files. -/
def ShownInside (v : View K) (inv : σ → Prop) (k : Sink) (levels depth : Nat)
    (subs : List (ShortName × K)) (files : List ShortName) (o : Outcome (σ × Sink) Unit) : Prop :=
  (∃ t text, v.Holds subs files t ∧ t.height ≤ levels ∧ Wrote inv k o text ∧
      t.render depth = text ++ files.flatMap (Tree.line depth '-')) ∨
    (Stopped inv o ∧ ∀ t, v.Holds subs files t → levels < t.height)

theorem PresentsOn.shown_directory (hk : k.AcceptsAll) {levels depth : Nat} {d : D} (hd : good d)
    (below : ∀ c s, good c → Ready inv k s →
      Shown v inv k levels (depth + 1) (key c) (h.printWithin levels (depth + 1) c s))
    {all : List (ShortName × K)} (listed : v.directories (key d) = some all) {e : Entry} {a : K}
    (mem : (e.name, a) ∈ all) {s : σ × Sink} (hs : Ready inv k s) :
    (∃ u, v.Unfolds a u ∧ u.height < levels ∧
        Wrote inv k (h.printDirectory levels depth d e s)
          (Tree.line depth '+' e.name ++ u.render (depth + 1))) ∨
      (Stopped inv (h.printDirectory levels depth d e s) ∧
        ∀ u, v.Unfolds a u → levels ≤ u.height) := by
  have line := wrote_writeLine hk depth .directory e.name hs
  rw [EntryKind.marker] at line
  obtain ⟨keeps, silent, c, hc, rfl, child⟩ :=
    pres.enter d (writeLine depth .directory e.name s).state.1 all hd line.ready.1 listed _ mem
  have ready : Ready inv k ((h.subdirectory d e.name
      (writeLine depth .directory e.name s).state.1).state,
      (writeLine depth .directory e.name s).state.2) := ⟨keeps, line.ready.2⟩
  rw [printDirectory_of_opened line.result hc]
  rcases below c _ child ready with ⟨u, hu, lt, wrote⟩ | ⟨stopped, high⟩
  · refine .inl ⟨u, hu, lt, wrote.result, wrote.ready, ?_⟩
    simp only [Trace.written_append, line.written, silent, wrote.written, pres.released,
      List.nil_append, List.append_nil, Utf8.encode_append]
  · exact .inr ⟨stopped, high⟩

theorem PresentsOn.shown_directories (hk : k.AcceptsAll) {levels depth : Nat} {d : D}
    (hd : good d) (below : ∀ c s, good c → Ready inv k s →
      Shown v inv k levels (depth + 1) (key c) (h.printWithin levels (depth + 1) c s))
    {all : List (ShortName × K)} (listed : v.directories (key d) = some all)
    (files : List ShortName) (start : Nat) (entries : List Entry) (subs : List (ShortName × K))
    (names : entries.map Entry.name = subs.map Prod.fst) (mem : ∀ sub ∈ subs, sub ∈ all)
    {s : σ × Sink} (hs : Ready inv k s) :
    ShownInside v inv k levels depth subs files
      (h.overEntries d .directory (h.printDirectory levels depth d) start entries s) := by
  induction subs generalizing start entries s with
  | nil =>
      obtain rfl := List.map_eq_nil_iff.mp names
      exact .inl ⟨.files files, [], .files files, Nat.zero_le _,
        wrote_overEntries_nil h d .directory _ start hs, rfl⟩
  | cons sub subs ih =>
      obtain ⟨e, rest, rfl, he, hrest⟩ := List.map_eq_cons_iff.mp names
      obtain ⟨name, a⟩ := sub
      cases he
      rcases pres.shown_directory hk hd below listed (mem _ (List.mem_cons_self ..)) hs with
        ⟨u, ⟨_, _, hsubs, hfiles, holds⟩, lt, first⟩ | ⟨⟨⟨f, hf⟩, keeps⟩, high⟩
      · rcases ih (start + 1) rest hrest (fun x hx => mem x (List.mem_cons_of_mem _ hx))
          first.ready with ⟨t, text, ht, le, wrote, render⟩ | ⟨stopped, high⟩
        · refine .inl ⟨_, _, .directory hsubs hfiles holds ht, ?_,
            wrote_overEntries_cons (pres.gotEntry _ _ _) first wrote, ?_⟩
          · simp only [Tree.height]; omega
          · simp only [Tree.render, render, List.append_assoc]
        · refine .inr ⟨?_, ?_⟩
          · rw [overEntries_cons_of_ok first.result]
            exact stopped
          · intro t ht
            cases ht with
            | directory _ _ _ more => simp only [Tree.height]; have := high _ more; omega
      · refine .inr ⟨?_, ?_⟩
        · rw [overEntries_cons_of_error hf]
          exact ⟨⟨f, rfl⟩, keeps⟩
        · intro t ht
          cases ht with
          | directory hsubs hfiles inside _ =>
              simp only [Tree.height]
              have := high _ ⟨_, _, hsubs, hfiles, inside⟩
              omega

/-- What printing comes to is decided by the tree and the levels left, by induction on these. -/
theorem PresentsOn.shown (hk : k.AcceptsAll) (levels depth : Nat) {d : D} (hd : good d)
    {s : σ × Sink} (hs : Ready inv k s) :
    Shown v inv k levels depth (key d) (h.printWithin levels depth d s) := by
  induction levels generalizing depth d s with
  | zero => exact .inr ⟨⟨⟨_, rfl⟩, hs.1⟩, fun _ _ => Nat.zero_le _⟩
  | succ levels ih =>
      rw [printWithin_succ]
      cases hsubs : v.directories (key d) with
      | none =>
          have unlisted : v.names (key d) .directory = none := by simp [View.names, hsubs]
          refine .inr ⟨(pres.forEntries_unlisted depth hd .directory _ hs unlisted).seq, ?_⟩
          intro t ⟨_, _, h', _⟩
          simp [hsubs] at h'
      | some subs =>
          have listed : v.names (key d) .directory = some (subs.map Prod.fst) := by
            simp [View.names, hsubs]
          obtain ⟨entries, s', hnames, hs', wrote, stopped⟩ :=
            pres.forEntries_listed depth hd .directory (h.printDirectory levels depth d) hs listed
          have inside := fun files => pres.shown_directories hk hd (fun c _ hc hs => ih (depth + 1) hc hs)
            hsubs files 0 entries subs hnames (fun _ mem => mem) hs'
          cases hfiles : v.files (key d) with
          | none =>
              refine .inr ⟨?_, ?_⟩
              · rcases inside [] with ⟨_, text, -, -, all, -⟩ | ⟨some, -⟩
                · have first := wrote text all
                  exact first.then_stopped
                    (pres.forEntries_unlisted depth hd .file _ first.ready hfiles)
                · exact (stopped some).seq
              · intro t ⟨_, _, _, h', _⟩
                simp [hfiles] at h'
          | some files =>
              rcases inside files with ⟨t, text, holds, le, all, render⟩ | ⟨some, high⟩
              · have first := wrote text all
                obtain ⟨entries', s'', rfl, hs'', wrote', -⟩ :=
                  pres.forEntries_listed depth hd .file (printFile depth) first.ready hfiles
                have second := wrote' _
                  (wrote_files hk depth d 0 entries' (pres.gotEntry d .file) hs'')
                exact .inl ⟨t, ⟨subs, _, hsubs, hfiles, holds⟩, Nat.lt_succ_of_le le,
                  render ▸ first.seq second⟩
              · refine .inr ⟨(stopped some).seq, ?_⟩
                intro t ⟨_, _, h₁, h₂, holds⟩
                cases hsubs.symm.trans h₁
                cases hfiles.symm.trans h₂
                exact high t holds

/-- The text of a container whose root can be opened. -/
theorem PresentsOn.text_of_root {d : D} {s : σ} (root : (h.root s).result = .ok d)
    (silent : (h.root s).trace.written = []) (hs : inv (h.root s).state) (hd : good d) :
    (∃ t, v.Unfolds (key d) t ∧ t.height ≤ maxDepth ∧
        (h.text s).result = .ok (String.ofList (t.render 0))) ∨
      ((∃ e, (h.text s).result = .error e) ∧ ∀ t, v.Unfolds (key d) t → maxDepth < t.height) := by
  have takes : Sink.unlimited.AcceptsAll := by decide
  have opened : (h.root.onFirst (s, Sink.unlimited)).result = .ok d := root
  have walk : h.walk (s, Sink.unlimited) = _ := Act.bind_of_ok opened
  have ready : Ready inv Sink.unlimited (h.root.onFirst (s, Sink.unlimited)).state := ⟨hs, rfl⟩
  rw [text_run]
  rcases pres.shown takes (maxDepth + 1) 0 hd ready with ⟨t, unfolds, lt, wrote⟩ | ⟨⟨⟨e, he⟩, -⟩, high⟩
  · refine .inl ⟨t, unfolds, Nat.le_of_lt_succ lt, ?_⟩
    have done : (h.walk (s, Sink.unlimited)).result = .ok () := by
      rw [walk]
      exact wrote.result
    have sink : (h.walk (s, Sink.unlimited)).state.2 = Sink.unlimited := by
      rw [walk]
      exact wrote.ready.2
    have written : (h.walk (s, Sink.unlimited)).trace.written = Utf8.encode (t.render 0) := by
      rw [walk, Act.onFirst_run, Act.closing_run, Trace.written_append, Trace.written_append, silent,
        pres.released, List.nil_append, List.append_nil]
      exact wrote.written
    have flushes : (h.walk (s, Sink.unlimited)).state.2.flushFails = false := by
      rw [sink]
      rfl
    rw [print_of_walked done]
    simp [flushes, Except.map, Trace.text, written]
  · have failed : (h.walk (s, Sink.unlimited)).result = .error e := by
      rw [walk]
      exact he
    rw [print_of_stopped failed]
    exact .inr ⟨⟨e, rfl⟩, high⟩

end PresentsOn

/-- There is no text if the first sub-directory of the root does not open. -/
theorem text_of_unopened {d : D} {s : σ} {e : Entry} {rest : List Entry} {f : Fault}
    (root : (h.root s).result = .ok d)
    (listed : (h.list d .directory (h.root s).state).result = .ok (e :: rest))
    (refused : (h.subdirectory d e.name (h.list d .directory (h.root s).state).state).result =
      .error f) : (h.text s).result = .error (.enter e.name f) := by
  have takes : Sink.unlimited.AcceptsAll := by decide
  let s' : σ × Sink := ((h.list d .directory (h.root s).state).state, .unlimited)
  have line : Wrote (fun t => t = s'.1) .unlimited (writeLine 0 .directory e.name s') _ :=
    wrote_writeLine takes 0 .directory e.name ⟨rfl, rfl⟩
  have first : (h.printDirectory maxDepth 0 d e s').result = .error (.enter e.name f) := by
    rw [printDirectory_of_unopened line.result (by rw [line.ready.1]; exact refused)]
  have opened : (h.root.onFirst (s, Sink.unlimited)).result = .ok d := root
  have walk : (h.walk (s, Sink.unlimited)).result = .error (.enter e.name f) := by
    have inside : (h.forEntries 0 d .directory (h.printDirectory maxDepth 0 d)
        ((h.root s).state, .unlimited)).result = .error (.enter e.name f) := by
      rw [forEntries_of_ok listed]
      exact congrArg Outcome.result (overEntries_cons_of_error first)
    rw [Hierarchy.walk, Act.bind_of_ok opened]
    exact congrArg Outcome.result (Act.bind_of_error inside)
  rw [text_run, print_of_stopped walk]
  rfl

theorem Presents.shown (pres : h.Presents v key inv) (hk : k.AcceptsAll) (levels depth : Nat)
    (d : D) {s : σ × Sink} (hs : Ready inv k s) :
    Shown v inv k levels depth (key d) (h.printWithin levels depth d s) :=
  pres.on.shown hk levels depth trivial hs

end Print

end Hierarchy
end SaveContainer
