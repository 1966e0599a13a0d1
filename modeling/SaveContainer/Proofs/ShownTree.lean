import SaveContainer.Proofs.Quiet
import SaveContainer.Proofs.TreeReading

/-!
The tree that a container shows, for containers of any kind: what is listed, with what is listed in
what opens under the listed names, each asked in the state that the questions before have left.
Main statement: a text comes from one such tree only, and can be read back if its names are text on
one line, so containers with one text have one tree.
-/

namespace SaveContainer.Hierarchy

variable {σ τ D E : Type}

/-- A directory of which these sub-directories are still to be asked holds this tree. The questions
begin in one state and end in the other. -/
inductive Holds (h : Hierarchy σ D) : D → List Entry → σ → Tree → σ → Prop
  | files {d : D} {s : σ} {entries : List Entry} :
      (h.list d .file s).result = .ok entries →
      Holds h d [] s (.files (entries.map Entry.name)) (h.list d .file s).state
  | directory {d c : D} {e : Entry} {rest subs : List Entry} {s s₁ s₂ : σ} {inside more : Tree} :
      (h.subdirectory d e.name s).result = .ok c →
      (h.list c .directory (h.subdirectory d e.name s).state).result = .ok subs →
      Holds h c subs (h.list c .directory (h.subdirectory d e.name s).state).state inside s₁ →
      Holds h d rest s₁ more s₂ → Holds h d (e :: rest) s (.directory e.name inside more) s₂

/-- The tree of an open directory. -/
def Shows (h : Hierarchy σ D) (d : D) (s : σ) (t : Tree) (s' : σ) : Prop :=
  ∃ subs, (h.list d .directory s).result = .ok subs ∧
    h.Holds d subs (h.list d .directory s).state t s'

/-- The tree that the container unfolds to from its root. -/
def Unfolds (h : Hierarchy σ D) (s : σ) (t : Tree) : Prop :=
  ∃ d s', (h.root s).result = .ok d ∧ h.Shows d (h.root s).state t s'

variable {h : Hierarchy σ D}

theorem Holds.unique {d : D} {subs : List Entry} {s s₁ s₂ : σ} {t u : Tree}
    (ht : h.Holds d subs s t s₁) (hu : h.Holds d subs s u s₂) : t = u ∧ s₁ = s₂ := by
  induction ht generalizing u s₂ with
  | files listed =>
      cases hu with
      | files listed' =>
          cases listed.symm.trans listed'
          exact ⟨rfl, rfl⟩
  | directory opened listed _ _ ihInside ihMore =>
      cases hu with
      | directory opened' listed' inside' more' =>
          cases opened.symm.trans opened'
          cases listed.symm.trans listed'
          obtain ⟨rfl, rfl⟩ := ihInside inside'
          obtain ⟨rfl, rfl⟩ := ihMore more'
          exact ⟨rfl, rfl⟩

theorem Unfolds.unique {s : σ} {t u : Tree} (ht : h.Unfolds s t) (hu : h.Unfolds s u) : t = u := by
  obtain ⟨d, s₁, root, subs, listed, holds⟩ := ht
  obtain ⟨d', s₂, root', subs', listed', holds'⟩ := hu
  cases root.symm.trans root'
  cases listed.symm.trans listed'
  exact (holds.unique holds').1

section Print

variable {k : Sink}

/-- What an act printed is the tree of `d`, asked from the state `s` on. -/
def PrintsTree (h : Hierarchy σ D) (k : Sink) (depth : Nat) (d : D) (s : σ)
    (o : Outcome (σ × Sink) Unit) : Prop :=
  ∃ t s', h.Shows d s t s' ∧ Wrote (· = s') k o (t.render depth)

variable (quiet : h.Quiet) (takes : k.AcceptsAll)
include quiet takes

theorem Quiet.shows_of_printDirectory {levels depth : Nat} {d : D} {e : Entry} {s : σ}
    (below : ∀ c s, (h.printWithin levels (depth + 1) c (s, k)).result = .ok () →
      h.PrintsTree k (depth + 1) c s (h.printWithin levels (depth + 1) c (s, k)))
    (ok : (h.printDirectory levels depth d e (s, k)).result = .ok ()) :
    ∃ c t s', (h.subdirectory d e.name s).result = .ok c ∧
      h.Shows c (h.subdirectory d e.name s).state t s' ∧
      Wrote (· = s') k (h.printDirectory levels depth d e (s, k))
        (Tree.line depth '+' e.name ++ t.render (depth + 1)) := by
  have line : Wrote (· = s) k (writeLine depth .directory e.name (s, k)) _ :=
    wrote_writeLine takes depth .directory e.name ⟨rfl, rfl⟩
  rw [EntryKind.marker] at line
  obtain ⟨state, sink⟩ := line.ready
  cases opened : (h.subdirectory d e.name s).result with
  | error f =>
      rw [printDirectory_of_unopened line.result (by rw [state]; exact opened)] at ok
      cases ok
  | ok c =>
      have run : h.printDirectory levels depth d e (s, k) = _ :=
        printDirectory_of_opened line.result (by rw [state]; exact opened)
      simp only [state, sink] at run
      rw [run] at ok ⊢
      obtain ⟨t, s', shows', wrote⟩ := below c _ ok
      refine ⟨c, t, s', rfl, shows', wrote.result, wrote.ready, ?_⟩
      simp only [Trace.written_append, line.written, (quiet.subdirectory d e.name s).written,
        wrote.written, (quiet.released c).written, List.nil_append, List.append_nil,
        Utf8.encode_append]

/-- By induction on what is listed: whatever files come after the sub-directories. -/
theorem Quiet.holds_of_directories {levels depth : Nat} {d : D}
    (below : ∀ c s, (h.printWithin levels (depth + 1) c (s, k)).result = .ok () →
      h.PrintsTree k (depth + 1) c s (h.printWithin levels (depth + 1) c (s, k)))
    (start : Nat) (subs : List Entry) {s : σ}
    (ok : (h.overEntries d .directory (h.printDirectory levels depth d) start subs
      (s, k)).result = .ok ()) :
    ∃ text s', Wrote (· = s') k (h.overEntries d .directory (h.printDirectory levels depth d)
        start subs (s, k)) text ∧
      ∀ names s'', h.Holds d [] s' (.files names) s'' → ∃ t, h.Holds d subs s t s'' ∧
        t.render depth = text ++ (Tree.files names).render depth := by
  induction subs generalizing start s with
  | nil =>
      refine ⟨[], s, wrote_overEntries_nil h d .directory _ start ⟨rfl, rfl⟩, ?_⟩
      exact fun names s'' files => ⟨_, files, rfl⟩
  | cons e rest ih =>
      cases first : (h.printDirectory levels depth d e (s, k)).result with
      | error f =>
          rw [overEntries_cons_of_error first] at ok
          cases ok
      | ok u =>
          obtain ⟨c, inside, s₁, opened, ⟨subs, listed, holds⟩, wrote⟩ :=
            quiet.shows_of_printDirectory takes below first
          have state : (h.printDirectory levels depth d e (s, k)).state = (s₁, k) :=
            Prod.ext wrote.ready.1 wrote.ready.2
          rw [overEntries_cons_of_ok first, state] at ok
          obtain ⟨text, s₂, wrote', others⟩ := ih (start + 1) ok
          rw [← state] at wrote'
          refine ⟨_, s₂, wrote_overEntries_cons (quiet.gotEntry d .directory start).written
            wrote wrote', ?_⟩
          intro names s'' files
          obtain ⟨more, holds', render⟩ := others names s'' files
          refine ⟨_, .directory opened listed holds holds', ?_⟩
          simp only [Tree.render, List.append_assoc] at render ⊢
          rw [render]

theorem Quiet.prints_tree (levels depth : Nat) (d : D) (s : σ)
    (ok : (h.printWithin levels depth d (s, k)).result = .ok ()) :
    h.PrintsTree k depth d s (h.printWithin levels depth d (s, k)) := by
  induction levels generalizing depth d s with
  | zero => cases ok
  | succ levels ih =>
      rw [printWithin_succ] at ok ⊢
      obtain ⟨_, first, second⟩ := Act.exists_of_bind_ok ok
      cases listed : (h.list d .directory s).result with
      | error e =>
          rw [forEntries_of_error listed] at first
          cases first
      | ok subs =>
          rw [forEntries_of_ok listed] at first
          obtain ⟨text, s₁, wrote, others⟩ :=
            quiet.holds_of_directories takes (fun c s => ih (depth + 1) c s) 0 subs first
          have directories := wrote_forEntries depth listed (quiet.list d .directory s).written
            (quiet.releasedList d .directory).written wrote
          have state : (h.forEntries depth d .directory (h.printDirectory levels depth d)
              (s, k)).state = (s₁, k) := Prod.ext directories.ready.1 directories.ready.2
          rw [state] at second
          cases listed' : (h.list d .file s₁).result with
          | error e =>
              rw [forEntries_of_error listed'] at second
              cases second
          | ok entries =>
              have after : Ready (· = (h.list d .file s₁).state) k ((h.list d .file s₁).state, k) :=
                ⟨rfl, rfl⟩
              have lines := wrote_files takes depth d 0 entries
                (fun i => (quiet.gotEntry d .file i).written) after
              have files := wrote_forEntries (s := (s₁, k)) depth listed'
                (quiet.list d .file s₁).written (quiet.releasedList d .file).written lines
              obtain ⟨t, holds, render⟩ := others _ _ (.files listed')
              refine ⟨t, _, ⟨subs, listed, holds⟩, ?_⟩
              rw [render]
              rw [← state] at files
              exact Wrote.seq directories files

end Print

theorem Quiet.unfolds_of_text (quiet : h.Quiet) {s : σ} {text : String}
    (shown : (h.text s).result = .ok text) :
    ∃ t, h.Unfolds s t ∧ text = String.ofList (t.render 0) := by
  have takes : Sink.unlimited.AcceptsAll := by decide
  rw [text_run] at shown
  cases walked : (h.walk (s, .unlimited)).result with
  | error e =>
      rw [print_of_stopped walked] at shown
      cases shown
  | ok u =>
      obtain ⟨d, root, printed⟩ := Act.exists_of_bind_ok walked
      obtain ⟨t, s', shows', wrote⟩ :=
        quiet.prints_tree takes (maxDepth + 1) 0 d (h.root s).state printed
      refine ⟨t, ⟨d, s', root, shows'⟩, ?_⟩
      have run : h.walk (s, .unlimited) = _ := Act.bind_of_ok root
      have written : (h.walk (s, .unlimited)).trace.written = Utf8.encode (t.render 0) := by
        rw [run, Act.onFirst_run, Act.closing_run, Trace.written_append, Trace.written_append,
          (quiet.root s).written, (quiet.released d).written, List.nil_append, List.append_nil]
        exact wrote.written
      have sink : (h.walk (s, .unlimited)).state.2 = .unlimited := by
        rw [run]
        exact wrote.ready.2
      have flushes : (h.walk (s, .unlimited)).state.2.flushFails = false := by
        rw [sink]
        rfl
      rw [print_of_walked walked] at shown
      simpa [flushes, Except.map, Trace.text, written, eq_comm] using shown

end Hierarchy

/-- A container of any kind, in the state in which it is shown. -/
structure Container where
  {State Directory : Type}
  hierarchy : Hierarchy State Directory
  state : State
  quiet : hierarchy.Quiet

namespace Container

def ofGraph (g : Graph) : Container :=
  ⟨g.hierarchy, (), g.quiet⟩

def ofPacked (c : Catalogue) : Container :=
  ⟨Packed.hierarchy Unit c, (), Packed.quiet Unit c⟩

def ofExtracted (disk : Disk) (t : PathTable) : Container :=
  ⟨Extracted.hierarchy disk, t, Extracted.quiet disk⟩

def text (c : Container) : Except Fault String :=
  (c.hierarchy.text c.state).result

def Unfolds (c : Container) (t : Tree) : Prop :=
  c.hierarchy.Unfolds c.state t

theorem exists_tree_of_text {c : Container} {text : String} (shown : c.text = .ok text) :
    ∃ t, (∀ u, c.Unfolds u ↔ u = t) ∧ text = String.ofList (t.render 0) := by
  obtain ⟨t, unfolds, printed⟩ := c.quiet.unfolds_of_text shown
  refine ⟨t, fun u => ⟨fun other => other.unique unfolds, ?_⟩, printed⟩
  rintro rfl
  exact unfolds

/-- Two containers with one text have one tree, and it can be read off the text. -/
theorem tree_of_text {a b : Container} {text : String} (shown : a.text = .ok text)
    (shown' : b.text = .ok text) :
    ∃ t t', (∀ u, a.Unfolds u ↔ u = t) ∧ (∀ u, b.Unfolds u ↔ u = t') ∧
      (t.All ShortName.IsLine → Tree.read? text.toList = some t) ∧
      (t.All ShortName.IsLine → t'.All ShortName.IsLine → t = t') := by
  obtain ⟨t, ht, printed⟩ := exists_tree_of_text shown
  obtain ⟨t', ht', printed'⟩ := exists_tree_of_text shown'
  have reads : t.All ShortName.IsLine → Tree.read? text.toList = some t := by
    intro lines
    rw [printed, String.toList_ofList, Tree.read?_render lines]
  refine ⟨t, t', ht, ht', reads, fun lines lines' => ?_⟩
  have again := reads lines
  rw [printed', String.toList_ofList, Tree.read?_render lines'] at again
  exact (Option.some.inj again).symm

/-- A directory `+` that holds a file ` -`, once as a graph and once on disk. -/
theorem tree_of_text_signs :
    let plus : ShortName := ⟨#v[0x2B, 0, 0, 0, 0, 0, 0, 0, 0, 0, 0, 0, 0, 0, 0, 0], 1,
      by decide, by decide⟩
    let minus : ShortName := ⟨#v[0x20, 0x2D, 0, 0, 0, 0, 0, 0, 0, 0, 0, 0, 0, 0, 0, 0], 2,
      by decide, by decide⟩
    let a := ofGraph ⟨[⟨.empty, [2], [], true⟩, ⟨plus, [], [3], true⟩, ⟨minus, [], [], false⟩],
      none, none⟩
    let disk : Disk := ⟨.directory [([0x63], .directory [([0x2B], .directory
      [([0x20, 0x2D], .device)])])], []⟩
    let b := ofExtracted disk (.ofRoot ⟨[0x63]⟩)
    let t := Tree.directory plus (.files [minus]) (.files [])
    let text := "++\n - -\n"
    a.text = .ok text ∧ b.text = .ok text ∧ Tree.read? text.toList = some t ∧
      (∀ u, a.Unfolds u ↔ u = t) ∧ ∀ u, b.Unfolds u ↔ u = t := by
  intro plus minus a disk b t text
  have shown : a.text = .ok text := by decide +kernel
  have shown' : b.text = .ok text := by decide +kernel
  have lines : t.All ShortName.IsLine :=
    ⟨by decide +kernel, List.forall_mem_singleton.mpr (by decide +kernel), List.forall_mem_nil _⟩
  have unfolds : a.Unfolds t :=
    have none : (a.hierarchy.list rootIno .file ()).result = .ok [] := rfl
    have one : (a.hierarchy.list (2 : Ino) .file ()).result = .ok [⟨minus, 3⟩] := rfl
    ⟨rootIno, (), rfl, [⟨plus, 2⟩], rfl, .directory rfl rfl (.files one) (.files none)⟩
  have unfolds' : b.Unfolds t := by
    let root : ExtractedDirectory := ⟨⟨[0x63]⟩, rootIno⟩
    let inside : ExtractedDirectory := ⟨⟨[0x63, 0x2F, 0x2B]⟩, 2⟩
    let h := Extracted.hierarchy disk
    let s₁ := (h.list root .directory (.ofRoot root.path)).state
    let s₂ := (h.subdirectory root plus s₁).state
    let s₃ := (h.list inside .directory s₂).state
    let s₄ := (h.list inside .file s₃).state
    have listed : (h.list root .directory (.ofRoot root.path)).result = .ok [⟨plus, 2⟩] := by
      decide +kernel
    have opened : (h.subdirectory root plus s₁).result = .ok inside := by
      decide +kernel
    have below : (h.list inside .directory s₂).result = .ok [] := by decide +kernel
    have one : (h.list inside .file s₃).result = .ok [⟨minus, 3⟩] := by decide +kernel
    have none : (h.list root .file s₄).result = .ok [] := by decide +kernel
    exact ⟨root, _, rfl, _, listed, .directory opened below (.files one) (.files none)⟩
  obtain ⟨u, u', ha, hb, reads, -⟩ := tree_of_text shown shown'
  obtain rfl := (ha t).mp unfolds
  obtain rfl := (hb t).mp unfolds'
  exact ⟨shown, shown', reads lines, ha, hb⟩

end Container
end SaveContainer
