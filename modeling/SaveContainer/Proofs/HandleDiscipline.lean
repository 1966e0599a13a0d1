import SaveContainer.Proofs.CallGrammar

/-!
The order in which printing a graph opens and releases. Main statement: however a run ends, its
calls are a word of the call grammar or a cut of one, and after a cut nothing follows but a refused
call, if this is what cut the run, and the release of what is open at the cut, innermost first.
-/

namespace SaveContainer.Graph

open Handle Graph.Symbol

/-- Why a run goes no further with `form`, and the call that the trace has for it: a listing or an
opening that was told to fail is seen there, a line that cannot be written and a directory that is
too deep are not. -/
inductive Halts (g : Graph) : List Symbol → Fault → List Call → Prop
  | line (form : List Symbol) (cause : IoFault) : Halts g form (.io cause) []
  | depth (n : Ino) (form : List Symbol) :
      Halts g (inside n :: form) (.corrupt (.directoryTooDeep n)) []
  | root (form : List Symbol) :
      Halts g (call (.opened rootIno) :: form) (.missing (.node rootIno)) []
  | listing {kind : EntryKind} {n : Ino} (form : List Symbol) :
      g.refusedListing = some ((g.node n).name, kind) →
      Halts g (call (.listed kind n) :: form)
        (.list n kind (.missing (.refusedListing (g.node n).name))) [.failedList kind n]
  | opening {n : Ino} (form : List Symbol) :
      g.refusedOpening = some (g.node n).name →
      Halts g (call (.opened n) :: form)
        (.enter (g.node n).name (.missing (.refusedOpening (g.node n).name)))
        [.failedOpen (g.node n).name]

theorem Halts.append_right {g : Graph} {form : List Symbol} {e : Fault} {calls : List Call}
    (h : g.Halts form e calls) (more : List Symbol) : g.Halts (form ++ more) e calls := by
  cases h with
  | line _ cause => exact .line _ cause
  | depth n form => exact .depth n (form ++ more)
  | root form => exact .root (form ++ more)
  | listing form h => exact .listing (form ++ more) h
  | opening form h => exact .opening (form ++ more) h

/-- How a part of the walk that stands for `form` ends when the handles `own` are its own to
release and those in `base` are not. -/
inductive Ran (g : Graph) (form : List Symbol) (own base : List Handle) (calls : List Call) :
    Except Fault Unit → Prop
  | whole :
      g.Yields form calls [] → Steps (own ++ base) calls base → Ran g form own base calls (.ok ())
  | cut {e : Fault} {word refused : List Call} {rest : List Symbol} {held : List Handle} :
      g.Yields form word rest → g.Halts rest e refused →
      Steps (own ++ base) word (held ++ base) → Steps (held ++ base) refused (held ++ base) →
      calls = word ++ refused ++ held.map Handle.release → Ran g form own base calls (.error e)

namespace Ran

variable {g : Graph} {form form' : List Symbol} {own base : List Handle} {calls : List Call}

theorem halted {e : Fault} (base : List Handle) (h : g.Halts form e []) :
    g.Ran form [] base [] (.error e) :=
  .cut (.stop form) h (.nil ([] ++ base)) (.nil base) rfl

theorem append_right {e : Fault} (h : g.Ran form own base calls (.error e))
    (more : List Symbol) : g.Ran (form ++ more) own base calls (.error e) := by
  cases h with
  | cut yields halts steps still eq =>
      exact .cut (yields.append_right more) (halts.append_right more) steps still eq

/-- What was done before belongs to the run, too, and can leave handles to release. -/
theorem after {word : List Call} {own' : List Handle} {r : Except Fault Unit}
    (h : g.Ran form' own' base calls r) (first : g.Yields form word [])
    (steps : Steps (own ++ base) word (own' ++ base)) :
    g.Ran (form ++ form') own base (word ++ calls) r := by
  cases h with
  | whole yields steps' => exact .whole (first.append yields) (steps.append steps')
  | cut yields halts steps' still eq =>
      refine .cut (first.append yields) halts (steps.append steps') still ?_
      rw [eq, List.append_assoc, List.append_assoc, List.append_assoc]

theorem closing {h : Handle} {r : Except Fault Unit} (ran : g.Ran form [] (h :: base) calls r) :
    g.Ran (form ++ [.call h.release]) [h] base (calls ++ [h.release]) r := by
  cases ran with
  | whole yields steps =>
      exact .whole (yields.append (.call (.stop []))) (steps.append (Step.release h base).one)
  | @cut _ _ _ _ held yields halts steps still eq =>
      have assoc : held ++ h :: base = (held ++ [h]) ++ base := by simp
      rw [assoc] at steps still
      refine .cut (yields.append_right _) (halts.append_right _) steps still ?_
      rw [eq, List.map_append, ← List.append_assoc]
      rfl

theorem inside {n : Ino} {r : Except Fault Unit}
    (h : g.Ran (g.production n) own base calls r) : g.Ran [.inside n] own base calls r := by
  cases h with
  | whole yields steps => exact .whole (.inside (yields.append_right [])) steps
  | @cut _ _ _ rest _ yields halts steps still eq =>
      have yields' := yields.append_right []
      rw [List.append_nil rest] at yields'
      exact .cut (.inside yields') halts steps still eq

end Ran

/-- Whatever state an act starts in, its calls stand for `form`. -/
def Runs (g : Graph) (form : List Symbol) (base : List Handle) (m : Act (Unit × Sink) Unit) :
    Prop :=
  ∀ s, g.Ran form [] base (m s).trace.calls (m s).result

section Walk

variable {g : Graph} {form form' : List Symbol} {kind : EntryKind} {n : Ino} {base : List Handle}

theorem Runs.seq {m m' : Act (Unit × Sink) Unit} (first : g.Runs form base m)
    (second : g.Runs form' base m') : g.Runs (form ++ form') base (do m; m') := by
  intro s
  have ran := first s
  cases hm : (m s).result with
  | error e =>
      rw [hm] at ran
      rw [Act.bind_of_error hm]
      exact ran.append_right form'
  | ok u =>
      rw [hm] at ran
      rw [Act.bind_of_ok hm, Trace.calls_append]
      cases ran with
      | whole yields steps => exact (second (m s).state).after yields steps

theorem Runs.got {m : Act (Unit × Sink) Unit} (i : Nat) (h : g.Runs form (.list kind n :: base) m) :
    g.Runs (call (.got kind n i) :: form) (.list kind n :: base) (do
      Act.notes (g.hierarchy.gotEntry n kind i)
      m) := by
  intro s
  exact (h s).after (.call (.stop [])) (Step.get kind n i base).one

theorem Runs.listing (depth : Nat) {body : Entry → Act (Unit × Sink) Unit}
    (loop : g.Runs form (.list kind n :: .directory n :: base)
      (g.hierarchy.overEntries n kind body 0 (((g.node n).members kind).map g.entry))) :
    g.Runs (listing kind n form) (.directory n :: base)
      (g.hierarchy.forEntries depth n kind body) := by
  intro s
  have listed : g.hierarchy.list n kind s.1 = _ := g.list_run n kind s.1
  by_cases refused : g.refusedListing = some ((g.node n).name, kind)
  · rw [if_pos refused] at listed
    rw [Hierarchy.forEntries_of_error (congrArg Outcome.result listed), listed]
    exact .cut (.stop _) (.listing _ refused) (.nil ([] ++ _))
      (Step.refuseList kind n base).one rfl
  · rw [if_neg refused] at listed
    rw [Hierarchy.forEntries_of_ok (congrArg Outcome.result listed), listed]
    have ran : g.Ran (Symbol.listing kind n form) [] (.directory n :: base) _ _ :=
      (loop (s.1, s.2)).closing.after (.call (.stop [])) (Step.list kind n base).one
    simpa [hierarchy, Handle.release] using ran

theorem runs_files (g : Graph) (n : Ino) (depth : Nat) (base : List Handle) (start : Nat)
    (files : List Ino) :
    g.Runs ((files.zipIdx start).map (fileRound n)) (.list .file n :: base)
      (g.hierarchy.overEntries n .file (Hierarchy.printFile depth) start (files.map g.entry)) := by
  induction files generalizing start with
  | nil => exact fun _ => .whole (.stop []) (.nil _)
  | cons i files ih =>
      have line : g.Runs [] (.list .file n :: base) (Hierarchy.printFile depth (g.entry i)) := by
        intro s
        rw [Hierarchy.printFile_calls]
        cases hr : (Hierarchy.printFile depth (g.entry i) s).result with
        | ok u => exact .whole (.stop []) (.nil _)
        | error e =>
            obtain ⟨cause, rfl⟩ := Hierarchy.printFile_error hr
            exact .halted _ (.line [] cause)
      exact (line.got start).seq (ih (start + 1))

/-- What holds of printing a directory when `levels` levels are left. -/
def Disciplined (g : Graph) (levels : Nat) : Prop :=
  ∀ n depth base, g.Runs [inside n] (.directory n :: base) (g.hierarchy.printWithin levels depth n)

section Directories

variable {levels : Nat} (below : g.Disciplined levels)
include below

theorem Disciplined.directory (depth : Nat) (base : List Handle) {i : Ino}
    (mem : i ∈ (g.node n).directories) :
    let child := g.opened n i
    g.Runs [call (.opened child), inside child, call (.released child)]
      (.list .directory n :: base) (g.hierarchy.printDirectory levels depth n (g.entry i)) := by
  intro child s
  let o := g.hierarchy.printDirectory levels depth n (g.entry i) s
  change g.Ran _ [] _ o.trace.calls o.result
  let w := Hierarchy.writeLine depth .directory (g.entry i).name s
  have silent : w.trace.calls = [] := Hierarchy.writeLine_calls depth .directory _ s
  cases line : w.result with
  | error e =>
      have run : o = _ := Hierarchy.printDirectory_of_unwritten line
      obtain ⟨cause, rfl⟩ := Hierarchy.writeLine_error line
      rw [run, silent]
      exact .halted _ (.line _ cause)
  | ok u =>
      have entered : g.hierarchy.subdirectory n (g.entry i).name w.state.1 = _ :=
        g.subdirectory_run mem w.state.1
      by_cases refused : g.refusedOpening = some (g.node i).name
      · rw [if_pos refused] at entered
        have run : o = _ :=
          Hierarchy.printDirectory_of_unopened line (congrArg Outcome.result entered)
        rw [run, entered, Trace.calls_append, silent]
        change g.Ran _ [] _ _
          (.error (.enter (g.node i).name (.missing (.refusedOpening (g.node i).name))))
        rw [← g.opened_name mem] at refused ⊢
        exact .cut (.stop _) (.opening _ refused) (.nil ([] ++ _))
          (Step.refuseEnter _ n base).one rfl
      · rw [if_neg refused] at entered
        have run : o = _ :=
          Hierarchy.printDirectory_of_opened line (congrArg Outcome.result entered)
        rw [run, entered, Trace.calls_append, Trace.calls_append, Trace.calls_append, silent]
        exact (below child (depth + 1) _ _).closing.after (.call (.stop []))
          (Step.enter n child base).one

theorem Disciplined.directories (n : Ino) (depth : Nat) (base : List Handle) (start : Nat)
    (listed : List Ino) (mem : ∀ i ∈ listed, i ∈ (g.node n).directories) :
    g.Runs (((listed.map (g.opened n)).zipIdx start).flatMap (directoryRound n))
      (.list .directory n :: base)
      (g.hierarchy.overEntries n .directory (g.hierarchy.printDirectory levels depth n) start
        (listed.map g.entry)) := by
  induction listed generalizing start with
  | nil => exact fun _ => .whole (.stop []) (.nil _)
  | cons i listed ih =>
      have first := below.directory depth base (mem i (List.mem_cons_self ..))
      exact (first.got start).seq
        (ih (start + 1) fun j hj => mem j (List.mem_cons_of_mem i hj))

end Directories

/-- The levels left count down from one directory to those in it. -/
theorem disciplined (g : Graph) (levels : Nat) : g.Disciplined levels := by
  induction levels with
  | zero => exact fun n depth base s => .halted _ (.depth n [])
  | succ levels ih =>
      intro n depth base s
      rw [Hierarchy.printWithin_succ]
      have directories := ih.directories n depth (.directory n :: base) 0
        (g.node n).directories fun _ mem => mem
      have files := g.runs_files n depth (.directory n :: base) 0 (g.node n).files
      exact ((directories.listing depth).seq (files.listing depth) s).inside

end Walk

theorem runs_walk (g : Graph) :
    g.Runs [call (.opened rootIno), inside rootIno, call (.released rootIno)] []
      g.hierarchy.walk := by
  intro s
  have root : g.hierarchy.root s.1 = g.openDirectory rootIno s.1 := rfl
  rw [Hierarchy.walk]
  rcases g.openDirectory_run rootIno s.1 with failed | opened
  · have run : (g.hierarchy.root.onFirst s).result = .error (.missing (.node rootIno)) := by
      rw [Act.onFirst_run, root, failed]
    rw [Act.bind_of_error run, Act.onFirst_run, root, failed]
    exact .halted [] (.root _)
  · have run : (g.hierarchy.root.onFirst s).result = .ok rootIno := by
      rw [Act.onFirst_run, root, opened]
    rw [Act.bind_of_ok run, Act.onFirst_run, root, opened, Act.closing_run, Trace.calls_append,
      Trace.calls_append]
    have first : Steps ([] ++ []) [.opened rootIno] ([.directory rootIno] ++ []) :=
      (Step.root rootIno).one
    exact (g.disciplined (maxDepth + 1) rootIno 0 [] (s.1, s.2)).closing.after
      (.call (.stop [])) first

variable {g : Graph}

/-- How a run with these calls and this result ends when it is cut before the sink is flushed. -/
def Cut (g : Graph) (calls : List Call) (result : Except Fault Unit) : Prop :=
  ∃ e word rest refused held, result = .error e ∧ g.Yields printing word rest ∧
    (∀ whole, g.Yields printing whole [] → word <+: whole) ∧ .flushed ∉ word ∧
    g.Halts rest e refused ∧ Steps [] word held ∧ calls = word ++ refused ++ held.map Handle.release

theorem cut_of_walk {calls : List Call} {e : Fault}
    (walk : g.Ran [call (.opened rootIno), inside rootIno, call (.released rootIno)] [] [] calls
      (.error e)) : g.Cut calls (.error e) ∧ Steps [] calls [] := by
  cases walk with
  | @cut _ word refused rest held yields halts steps still eq =>
      have beginning : g.Yields printing word (rest ++ [call .flushed]) :=
        yields.append_right [call .flushed]
      have unflushed : Call.flushed ∉ word := yields.flushed_notMem (by simp)
      rw [List.append_nil, List.append_nil] at steps
      refine ⟨⟨e, word, rest ++ [call .flushed], refused, held, rfl, beginning,
        fun whole => beginning.isPrefix, unflushed, halts.append_right _, steps, eq⟩, ?_⟩
      rw [List.append_nil] at still
      rw [eq]
      exact (steps.append still).append (by simpa using Handle.steps_release held [])

theorem print_ends (g : Graph) (s : Unit × Sink) :
    let o := g.hierarchy.print s
    (g.Yields printing o.trace.calls [] ∧
        (o.result = .ok () ∨ o.result = .error (.io .flushFailed)) ∨
      g.Cut o.trace.calls o.result) ∧ Steps [] o.trace.calls [] := by
  intro o
  have walk := g.runs_walk s
  cases hw : (g.hierarchy.walk s).result with
  | error e =>
      have run : o = _ := Hierarchy.print_of_stopped hw
      rw [hw] at walk
      rw [run]
      exact (cut_of_walk walk).imp_left .inr
  | ok u =>
      have run : o = _ := Hierarchy.print_of_walked hw
      rw [hw] at walk
      rw [run, Trace.calls_append]
      cases walk with
      | whole yields steps =>
          refine ⟨.inl ⟨yields.append (.call (.stop [])), ?_⟩, steps.append Step.flush.one⟩
          cases (g.hierarchy.walk s).state.2.flushFails
          · exact .inl rfl
          · exact .inr rfl

/-- A run is a whole word or a cut of one. In either case the handles are used as a stack, in which
a list stands on its directory, and each is released as often as it is opened. -/
theorem print_calls (g : Graph) (s : Unit × Sink) :
    let o := g.hierarchy.print s
    (g.Yields printing o.trace.calls [] ∧
        (o.result = .ok () ∨ o.result = .error (.io .flushFailed)) ∨
      g.Cut o.trace.calls o.result) ∧
    Steps [] o.trace.calls [] ∧
    (∀ calls, calls <+: o.trace.calls → ∃ held, Steps [] calls held ∧ held.IsChain Handle.In) ∧
    ∀ h : Handle, o.trace.calls.count h.acquire = o.trace.calls.count h.release := by
  intro o
  obtain ⟨ends, steps⟩ := g.print_ends s
  refine ⟨ends, steps, ?_, ?_⟩
  · intro calls ⟨later, eq⟩
    rw [← eq] at steps
    obtain ⟨held, before, -⟩ := steps.split
    exact ⟨held, before, before.isChain .nil⟩
  · intro h
    simpa using steps.count h

end SaveContainer.Graph
