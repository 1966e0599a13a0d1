import Mathlib.Logic.Relation
import SaveContainer.Proofs.Containment
import SaveContainer.Proofs.PathNumbers
import SaveContainer.Proofs.Printing

/-!
Runs of an extracted container: any calls and prints one after the other, each on the disk as it is
then. Main statement: a print comes to a number of calls, so a run with prints in it reaches nothing
that calls alone do not reach.
-/

namespace SaveContainer.Extracted

/-- A container in the course of a run: its table, the directories that were opened, and all
numbers that were given out, with the paths that they were given out for. -/
structure Moment where
  table : PathTable
  held : List ExtractedDirectory
  given : List (Path × Ino)

namespace Moment

def start (t : PathTable) : Moment := ⟨t, [], []⟩

/-- After a directory was asked for. -/
def opened (m : Moment) (o : Outcome PathTable ExtractedDirectory) : Moment :=
  match o.result with
  | .ok d => ⟨o.state, d :: m.held, (d.path, d.ino) :: m.given⟩
  | .error _ => { m with table := o.state }

/-- After `d` was listed. -/
def listed (m : Moment) (d : ExtractedDirectory) (o : Outcome PathTable (List Entry)) : Moment :=
  match o.result with
  | .ok entries =>
    { m with table := o.state, given :=
        entries.map (fun e => (d.path.join ⟨e.name.toBytes⟩, e.ino)) ++ m.given }
  | .error _ => { m with table := o.state }

/-- One call, with the disk in a state of `D` and, where a name is asked for, one of `N`. -/
inductive Call (D : Disk → Prop) (N : ShortName → Prop) : Moment → Moment → Prop
  | openDirectory {m : Moment} {disk : Disk} (ino : Ino) :
      D disk → Call D N m (m.opened (Extracted.openDirectory disk ino m.table))
  | list {m : Moment} {disk : Disk} {d : ExtractedDirectory} (kind : EntryKind) :
      D disk → d ∈ m.held → Call D N m (m.listed d (Extracted.list disk d kind m.table))
  | subdirectory {m : Moment} {disk : Disk} {d : ExtractedDirectory} {n : ShortName} :
      D disk → d ∈ m.held → N n →
      Call D N m (m.opened (Extracted.subdirectory disk d n m.table))

def Calls (D : Disk → Prop) (N : ShortName → Prop) : Moment → Moment → Prop :=
  Relation.ReflTransGen (Call D N)

/-- A call or a print. What the printer is given on its way stays with the printer. -/
inductive Step (D : Disk → Prop) (N : ShortName → Prop) : Moment → Moment → Prop
  | call {m m' : Moment} : Call D N m m' → Step D N m m'
  | print {m : Moment} {disk : Disk} (k : Sink) : D disk →
      Step D N m { m with table := ((hierarchy disk).print (m.table, k)).state.1 }
  | printBelow {m : Moment} {disk : Disk} {d : ExtractedDirectory} (depth : Nat) (k : Sink) :
      D disk → d ∈ m.held →
      Step D N m { m with table := ((hierarchy disk).printBelow depth d (m.table, k)).state.1 }

def Run (D : Disk → Prop) (N : ShortName → Prop) : Moment → Moment → Prop :=
  Relation.ReflTransGen (Step D N)

/-- The same table, and at least what the first moment has besides. -/
structure Within (m m' : Moment) : Prop where
  table : m'.table = m.table
  held : m.held ⊆ m'.held
  given : m.given ⊆ m'.given

variable {D : Disk → Prop} {N : ShortName → Prop} {m m' : Moment}

theorem Within.opened (h : m.Within m') (o : Outcome PathTable ExtractedDirectory) :
    (m.opened o).Within (m'.opened o) := by
  unfold Moment.opened
  cases o.result with
  | ok d => exact ⟨rfl, List.cons_subset_cons d h.held, List.cons_subset_cons _ h.given⟩
  | error e => exact ⟨rfl, h.held, h.given⟩

theorem Within.listed (h : m.Within m') (d : ExtractedDirectory)
    (o : Outcome PathTable (List Entry)) : (m.listed d o).Within (m'.listed d o) := by
  unfold Moment.listed
  cases o.result with
  | ok entries =>
      refine ⟨rfl, h.held, ?_⟩
      exact List.append_subset.mpr ⟨List.subset_append_left _ _,
        List.Subset.trans h.given (List.subset_append_right _ _)⟩
  | error e => exact ⟨rfl, h.held, h.given⟩

/-- More open directories allow for the same calls. -/
theorem Call.lift {m₁ : Moment} (call : Call D N m m₁) (h : m.Within m') :
    ∃ m₁', Call D N m' m₁' ∧ m₁.Within m₁' := by
  cases call with
  | @openDirectory disk ino now =>
      refine ⟨_, .openDirectory ino now, ?_⟩
      rw [h.table]
      exact h.opened _
  | @list disk d kind now mem =>
      refine ⟨_, .list kind now (h.held mem), ?_⟩
      rw [h.table]
      exact h.listed d _
  | @subdirectory disk d n now mem allowed =>
      refine ⟨_, .subdirectory now (h.held mem) allowed, ?_⟩
      rw [h.table]
      exact h.opened _

theorem held_opened (m : Moment) (o : Outcome PathTable ExtractedDirectory) :
    (m.opened o).held = o.result.toOption.toList ++ m.held := by
  unfold opened
  cases o.result <;> rfl

theorem table_opened (m : Moment) (o : Outcome PathTable ExtractedDirectory) :
    (m.opened o).table = o.state := by
  unfold opened
  cases o.result <;> rfl

theorem held_listed (m : Moment) (d : ExtractedDirectory) (o : Outcome PathTable (List Entry)) :
    (m.listed d o).held = m.held := by
  unfold listed
  cases o.result <;> rfl

theorem table_listed (m : Moment) (d : ExtractedDirectory) (o : Outcome PathTable (List Entry)) :
    (m.listed d o).table = o.state := by
  unfold listed
  cases o.result <;> rfl

theorem Call.keeps (h : Call D N m m') : m.held ⊆ m'.held ∧ m.given ⊆ m'.given := by
  have opened (o : Outcome PathTable ExtractedDirectory) :
      m.held ⊆ (m.opened o).held ∧ m.given ⊆ (m.opened o).given := by
    unfold Moment.opened
    cases o.result with
    | ok d => exact ⟨List.subset_cons_self .., List.subset_cons_self ..⟩
    | error e => exact ⟨List.Subset.refl _, List.Subset.refl _⟩
  cases h with
  | openDirectory ino now => exact opened _
  | @list disk d kind now mem =>
      unfold Moment.listed
      cases (Extracted.list disk d kind m.table).result with
      | ok entries => exact ⟨List.Subset.refl _, List.subset_append_right _ _⟩
      | error e => exact ⟨List.Subset.refl _, List.Subset.refl _⟩
  | subdirectory now mem allowed => exact opened _

theorem Calls.keeps (h : Calls D N m m') : m.held ⊆ m'.held ∧ m.given ⊆ m'.given := by
  induction h with
  | refl => exact ⟨List.Subset.refl _, List.Subset.refl _⟩
  | tail _ call ih =>
      exact ⟨List.Subset.trans ih.1 call.keeps.1, List.Subset.trans ih.2 call.keeps.2⟩

theorem Run.keeps (h : Run D N m m') : m.held ⊆ m'.held ∧ m.given ⊆ m'.given := by
  induction h with
  | refl => exact ⟨List.Subset.refl _, List.Subset.refl _⟩
  | tail _ step ih =>
      cases step with
      | call call =>
          exact ⟨List.Subset.trans ih.1 call.keeps.1, List.Subset.trans ih.2 call.keeps.2⟩
      | print k now => exact ih
      | printBelow depth k now mem => exact ih

/-- A container in the course of a run has come to where its calls have brought it. -/
theorem Calls.reached {p : Path} {disk : Disk} {t : PathTable} (now : D disk)
    (root : (openRoot disk p ()).result = .ok t) (h : Calls D N (start t) m) :
    Reached D N p m.table m.held := by
  induction h with
  | refl => exact .openRoot now root
  | tail _ call ih =>
      cases call with
      | openDirectory ino now =>
          rw [table_opened, held_opened]
          exact ih.openDirectory ino now
      | list kind now mem =>
          rw [table_listed, held_listed]
          exact ih.list kind mem now
      | subdirectory now mem allowed =>
          rw [table_opened, held_opened]
          exact ih.subdirectory mem now allowed

/-- Whatever the sink, the act comes to a number of calls if `d` is open. -/
def Traced (D : Disk → Prop) (N : ShortName → Prop) (d : ExtractedDirectory)
    (a : Act (PathTable × Sink) Unit) : Prop :=
  ∀ m k, d ∈ m.held → ∃ m', Calls D N m m' ∧ m'.table = (a (m.table, k)).state.1

section Print

variable {d : ExtractedDirectory}

theorem traced_of_still {a : Act (PathTable × Sink) Unit} (still : ∀ s, (a s).state.1 = s.1) :
    Traced D N d a :=
  fun m k _ => ⟨m, .refl, (still (m.table, k)).symm⟩

theorem Traced.seq {a b : Act (PathTable × Sink) Unit} (first : Traced D N d a)
    (second : Traced D N d b) : Traced D N d (do a; b) := by
  intro m k mem
  obtain ⟨m₁, calls, table⟩ := first m k mem
  cases ended : (a (m.table, k)).result with
  | error e =>
      rw [Act.bind_of_error ended]
      exact ⟨m₁, calls, table⟩
  | ok u =>
      rw [Act.bind_of_ok ended]
      obtain ⟨m₂, calls', table'⟩ := second m₁ (a (m.table, k)).state.2 (calls.keeps.1 mem)
      rw [table] at table'
      exact ⟨m₂, calls.trans calls', table'⟩

theorem traced_overEntries (disk : Disk) (kind : EntryKind)
    {body : Entry → Act (PathTable × Sink) Unit} (start : Nat) (entries : List Entry)
    (each : ∀ e ∈ entries, Traced D N d (body e)) :
    Traced D N d ((hierarchy disk).overEntries d kind body start entries) := by
  induction entries generalizing start with
  | nil => exact traced_of_still fun _ => rfl
  | cons e rest ih =>
      rw [Hierarchy.overEntries_cons]
      have got : Traced D N d (Act.notes ((hierarchy disk).gotEntry d kind start)) :=
        traced_of_still fun _ => rfl
      exact (got.seq (each e (List.mem_cons_self ..))).seq
        (ih (start + 1) fun e' mem => each e' (List.mem_cons_of_mem e mem))

variable {disk : Disk} (now : D disk)
include now

theorem traced_forEntries (depth : Nat) (kind : EntryKind)
    {body : Entry → Act (PathTable × Sink) Unit}
    (each : ∀ t entries, (list disk d kind t).result = .ok entries →
      ∀ e ∈ entries, Traced D N d (body e)) :
    Traced D N d ((hierarchy disk).forEntries depth d kind body) := by
  intro m k mem
  have call : Call D N m _ := .list kind now mem
  have table := m.table_listed d (list disk d kind m.table)
  cases listed : (list disk d kind m.table).result with
  | error e =>
      have failed : ((hierarchy disk).list d kind (m.table, k).1).result = .error e := listed
      rw [Hierarchy.forEntries_of_error failed]
      exact ⟨_, .single call, table⟩
  | ok entries =>
      have done : ((hierarchy disk).list d kind (m.table, k).1).result = .ok entries := listed
      rw [Hierarchy.forEntries_of_ok done]
      obtain ⟨m', calls, table'⟩ := traced_overEntries disk kind 0 entries
        (each m.table entries listed) _ k (call.keeps.1 mem)
      rw [table] at table'
      exact ⟨m', .trans (.single call) calls, table'⟩

variable (names : ∀ d kind t entries, (list disk d kind t).result = .ok entries →
    ∀ e ∈ entries, N e.name)

theorem traced_printDirectory {levels : Nat}
    (below : ∀ d depth, Traced D N d ((hierarchy disk).printWithin levels depth d)) (depth : Nat)
    {e : Entry} (allowed : N e.name) :
    Traced D N d ((hierarchy disk).printDirectory levels depth d e) := by
  intro m k mem
  have still : (Hierarchy.writeLine depth .directory e.name (m.table, k)).state.1 = m.table := by
    rw [Hierarchy.writeLine_run]
  cases line : (Hierarchy.writeLine depth .directory e.name (m.table, k)).result with
  | error f =>
      rw [Hierarchy.printDirectory_of_unwritten line]
      exact ⟨m, .refl, still.symm⟩
  | ok u =>
      have call : Call D N m _ := .subdirectory now mem allowed
      have table := m.table_opened (subdirectory disk d e.name m.table)
      cases sub : (subdirectory disk d e.name m.table).result with
      | error f =>
          have failed : ((hierarchy disk).subdirectory d e.name (Hierarchy.writeLine depth
              .directory e.name (m.table, k)).state.1).result = .error f := by
            rw [still]
            exact sub
          rw [Hierarchy.printDirectory_of_unopened line failed, still]
          exact ⟨_, .single call, table⟩
      | ok c =>
          have done : ((hierarchy disk).subdirectory d e.name (Hierarchy.writeLine depth
              .directory e.name (m.table, k)).state.1).result = .ok c := by
            rw [still]
            exact sub
          have held : c ∈ (m.opened (subdirectory disk d e.name m.table)).held := by
            rw [held_opened, sub]
            exact List.mem_cons_self ..
          rw [Hierarchy.printDirectory_of_opened line done, still]
          obtain ⟨m', calls, table'⟩ := below c (depth + 1) _ _ held
          rw [table] at table'
          exact ⟨m', .trans (.single call) calls, table'⟩

include names

-- By induction on the levels left.
theorem traced_printWithin (levels depth : Nat) (d : ExtractedDirectory) :
    Traced D N d ((hierarchy disk).printWithin levels depth d) := by
  induction levels generalizing depth d with
  | zero => exact traced_of_still fun _ => rfl
  | succ levels ih =>
      rw [Hierarchy.printWithin_succ]
      refine (traced_forEntries now depth .directory fun t entries listed e mem => ?_).seq
        (traced_forEntries now depth .file fun _ _ _ e _ => ?_)
      · exact traced_printDirectory now (fun d depth => ih depth d) depth
          (names d .directory t entries listed e mem)
      · refine traced_of_still fun s => ?_
        rw [Hierarchy.printFile_run, Hierarchy.writeLine_run]

theorem calls_of_print (m : Moment) (k : Sink) :
    ∃ m', Calls D N m m' ∧ m'.table = ((hierarchy disk).print (m.table, k)).state.1 := by
  have walked : ∃ m', Calls D N m m' ∧
      m'.table = ((hierarchy disk).walk (m.table, k)).state.1 := by
    have call : Call D N m _ := .openDirectory rootIno now
    have table := m.table_opened (openDirectory disk rootIno m.table)
    rw [Hierarchy.walk]
    cases root : (openDirectory disk rootIno m.table).result with
    | error e =>
        have failed : ((hierarchy disk).root.onFirst (m.table, k)).result = .error e := root
        rw [Act.bind_of_error failed]
        exact ⟨_, .single call, table⟩
    | ok d =>
        have done : ((hierarchy disk).root.onFirst (m.table, k)).result = .ok d := root
        have held : d ∈ (m.opened (openDirectory disk rootIno m.table)).held := by
          rw [held_opened, root]
          exact List.mem_cons_self ..
        rw [Act.bind_of_ok done]
        obtain ⟨m', calls, table'⟩ := traced_printWithin now names (maxDepth + 1) 0 d _ k held
        rw [table] at table'
        exact ⟨m', .trans (.single call) calls, table'⟩
  cases ended : ((hierarchy disk).walk (m.table, k)).result with
  | error e =>
      rw [Hierarchy.print_of_stopped ended]
      exact walked
  | ok u =>
      rw [Hierarchy.print_of_walked ended]
      exact walked

theorem calls_of_printBelow {m : Moment} {d : ExtractedDirectory} (mem : d ∈ m.held) (depth : Nat)
    (k : Sink) : ∃ m', Calls D N m m' ∧
      m'.table = ((hierarchy disk).printBelow depth d (m.table, k)).state.1 :=
  traced_printWithin now names (maxDepth + 1 - depth) depth d m k mem

end Print

/-- Whatever a run comes to, calls alone come to it, too. -/
theorem Run.calls (names : ∀ disk d kind t entries, D disk →
      (list disk d kind t).result = .ok entries → ∀ e ∈ entries, N e.name)
    {m₀ : Moment} (h : Run D N m₀ m) : ∃ m', Calls D N m₀ m' ∧ m.Within m' := by
  induction h with
  | refl => exact ⟨m₀, .refl, rfl, List.Subset.refl _, List.Subset.refl _⟩
  | @tail m₁ m₂ _ step ih =>
      obtain ⟨m₁', calls, within⟩ := ih
      have printed {m' : Moment} {t : PathTable} (more : Calls D N m₁' m') (table : m'.table = t) :
          ∃ m', Calls D N m₀ m' ∧ { m₁ with table := t }.Within m' :=
        ⟨m', calls.trans more, table, List.Subset.trans within.held more.keeps.1,
          List.Subset.trans within.given more.keeps.2⟩
      cases step with
      | call call =>
          obtain ⟨m', call', within'⟩ := call.lift within
          exact ⟨m', calls.tail call', within'⟩
      | @print disk k now =>
          obtain ⟨m', more, table⟩ := calls_of_print now (fun d kind t entries =>
            names disk d kind t entries now) m₁' k
          rw [within.table] at table
          exact printed more table
      | @printBelow disk d depth k now mem =>
          obtain ⟨m', more, table⟩ := calls_of_printBelow now (fun d kind t entries =>
            names disk d kind t entries now) (within.held mem) depth k
          rw [within.table] at table
          exact printed more table

end Moment

end SaveContainer.Extracted
