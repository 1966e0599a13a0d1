import SaveContainer.Graph
import SaveContainer.Proofs.Printing

/-!
Graphs of directories as views. A sub-directory is opened by its name, so the first one of a name
stands for all of that name. Main statement: a graph in which nothing is refused is printed from a
node exactly when the chains of directories below it are short enough, and then as the tree that
the node unfolds to.
-/

namespace SaveContainer.Graph

/-- What opens under the name of a listed sub-directory: the first one of this name. -/
def opened (g : Graph) (ino listed : Ino) : Ino :=
  ((g.node ino).directories.find? fun i => (g.node i).name = (g.node listed).name).getD listed

/-- What opens under the names of the sub-directories, in the order in which they are listed. -/
def children (g : Graph) (ino : Ino) : List Ino :=
  (g.node ino).directories.map (g.opened ino)

def Child (g : Graph) (a b : Ino) : Prop :=
  b ∈ g.children a

instance (g : Graph) (a b : Ino) : Decidable (g.Child a b) :=
  inferInstanceAs (Decidable (_ ∈ _))

def view (g : Graph) : View Ino where
  directories ino := some ((g.node ino).directories.map fun i =>
    ((g.node i).name, g.opened ino i))
  files ino := some ((g.node ino).files.map fun i => (g.node i).name)

theorem view_child (g : Graph) : g.view.Child = g.Child := by
  funext a b
  simp [View.Child, view, Child, children]

theorem find?_opened (g : Graph) {ino listed : Ino} (mem : listed ∈ (g.node ino).directories) :
    ((g.node ino).directories.find? fun i => (g.node i).name = (g.node listed).name) =
      some (g.opened ino listed) := by
  have found : ((g.node ino).directories.find? fun i =>
      (g.node i).name = (g.node listed).name).isSome := by
    simpa using ⟨listed, mem, rfl⟩
  obtain ⟨i, hi⟩ := Option.isSome_iff_exists.mp found
  rw [opened, hi, Option.getD_some]

theorem opened_name (g : Graph) {ino listed : Ino} (mem : listed ∈ (g.node ino).directories) :
    (g.node (g.opened ino listed)).name = (g.node listed).name := by
  simpa using List.find?_some (g.find?_opened mem)

/-- What a list shows of a node. -/
def entry (g : Graph) (ino : Ino) : Entry :=
  ⟨(g.node ino).name, ino⟩

theorem openDirectory_run (g : Graph) (ino : Ino) (s : Unit) :
    g.openDirectory ino s = ⟨.error (.missing (.node ino)), s, []⟩ ∨
      g.openDirectory ino s = ⟨.ok ino, s, [.call (.opened ino)]⟩ := by
  unfold openDirectory
  rcases g.node? ino with _ | ⟨_, _, _, _ | _⟩
  · exact .inl rfl
  · exact .inl rfl
  · exact .inr rfl

theorem list_run (g : Graph) (ino : Ino) (kind : EntryKind) (s : Unit) :
    g.list ino kind s =
      if g.refusedListing = some ((g.node ino).name, kind) then
        ⟨.error (.missing (.refusedListing (g.node ino).name)), s, [.call (.failedList kind ino)]⟩
      else ⟨.ok (((g.node ino).members kind).map g.entry), s, [.call (.listed kind ino)]⟩ := by
  simp only [list]
  split <;> rfl

/-- What is listed can be found again by its name. -/
theorem subdirectory_run (g : Graph) {ino listed : Ino}
    (mem : listed ∈ (g.node ino).directories) (s : Unit) :
    g.subdirectory ino (g.node listed).name s =
      if g.refusedOpening = some (g.node listed).name then
        ⟨.error (.missing (.refusedOpening (g.node listed).name)), s,
          [.call (.failedOpen (g.node listed).name)]⟩
      else ⟨.ok (g.opened ino listed), s, [.call (.opened (g.opened ino listed))]⟩ := by
  simp only [subdirectory]
  rw [g.find?_opened mem]
  split <;> rfl

theorem presents (nodes : List GraphNode) :
    let g : Graph := ⟨nodes, none, none⟩
    g.hierarchy.Presents g.view id fun _ => True := by
  intro g
  refine ⟨?_, ?_, fun _ _ _ => rfl, fun _ _ => rfl, fun _ => rfl⟩
  · intro d kind s _
    have run := g.list_run d kind s
    rw [if_neg (by simp [g])] at run
    change True ∧ (g.list d kind s).trace.written = [] ∧
      (g.list d kind s).result.toOption.map _ = _
    rw [run]
    refine ⟨trivial, rfl, ?_⟩
    cases kind <;>
      simp [Except.toOption, View.names, view, GraphNode.members, entry, Function.comp_def]
  · intro d s subs _ hsubs sub mem
    cases hsubs
    obtain ⟨i, hi, rfl⟩ := List.mem_map.mp mem
    have run := g.subdirectory_run hi s
    rw [if_neg (by simp [g])] at run
    change True ∧ (g.subdirectory d (g.node i).name s).trace.written = [] ∧
      (g.subdirectory d (g.node i).name s).result.toOption.map id = _
    rw [← id_eq d, run]
    exact ⟨trivial, rfl, rfl⟩

/-- Chains count what is opened, not what is listed: a name that is listed twice opens the same
directory twice. -/
theorem printBelow_ok_iff_chains_short (nodes : List GraphNode) (depth : Nat) (start : Ino)
    (k : Sink) (hk : k.AcceptsAll) :
    let g : Graph := ⟨nodes, none, none⟩
    let o := g.hierarchy.printBelow depth start ((), k)
    (o.result = .ok () ↔ depth ≤ maxDepth ∧
      ∀ chain, (start :: chain).IsChain g.Child → chain.length ≤ maxDepth - depth) ∧
    ((∃ n, Relation.ReflTransGen g.Child start n ∧ Relation.TransGen g.Child n n) →
      o.result ≠ .ok ()) ∧
    (o.result = .ok () → ∃ t, g.view.Unfolds start t ∧ (∀ u, g.view.Unfolds start u → u = t) ∧
      o.trace.written = Utf8.encode (t.render depth) ∧
      o.trace.text = String.ofList (t.render depth)) := by
  intro g o
  have total : ∀ n, (g.view.directories n).isSome ∧ (g.view.files n).isSome :=
    fun _ => ⟨rfl, rfl⟩
  have chains := View.exists_unfolds_iff_chains total start (maxDepth - depth)
  rw [view_child] at chains
  have shown := (presents nodes).shown hk (maxDepth + 1 - depth) depth start (s := ((), k))
    ⟨trivial, rfl⟩
  change Hierarchy.Shown g.view _ k _ depth start o at shown
  rcases shown with ⟨t, unfolds, lt, wrote⟩ | ⟨⟨⟨e, he⟩, -⟩, high⟩
  · have le : depth ≤ maxDepth ∧ t.height ≤ maxDepth - depth := by omega
    refine ⟨?_, ?_, fun _ => ⟨t, unfolds, fun u hu => hu.unique unfolds, wrote.written, ?_⟩⟩
    · exact iff_of_true wrote.result ⟨le.1, chains.mp ⟨t, unfolds, le.2⟩⟩
    · rintro ⟨n, reach, cycle⟩
      rw [← view_child] at reach cycle
      exact absurd cycle (unfolds.acyclic reach)
    · rw [Trace.text, wrote.written, Utf8.lossy_encode]
  · have failed : o.result ≠ .ok () := by simp [he]
    refine ⟨iff_of_false failed ?_, fun _ => failed, fun ok => absurd ok failed⟩
    rintro ⟨le, short⟩
    obtain ⟨t, unfolds, height⟩ := chains.mpr short
    have := high t unfolds
    omega

/-- Of two sub-directories of one name the second is never opened. -/
theorem printBelow_twins :
    let nodes : List GraphNode :=
      [⟨.empty, [2, 3], [], true⟩, ⟨.empty, [], [], true⟩, ⟨.empty, [2], [3], true⟩]
    let k : Sink := ⟨none, some 1, true, true⟩
    let o := (hierarchy ⟨nodes, none, none⟩).printBelow 3 1 ((), k)
    let t : Tree := .directory .empty (.files []) (.directory .empty (.files []) (.files []))
    k.AcceptsAll ∧ o.result = .ok () ∧ o.trace.written = Utf8.encode (t.render 3) := by
  intro nodes k o t
  have spec := printBelow_ok_iff_chains_short nodes 3 1 k (by decide)
  have ok : o.result = .ok () := by decide +kernel
  have unfolds : View.Unfolds (view ⟨nodes, none, none⟩) 1 t :=
    ⟨[(.empty, 2), (.empty, 2)], [], rfl, rfl,
      .directory rfl rfl (.files []) (.directory rfl rfl (.files []) (.files []))⟩
  obtain ⟨u, -, unique, written, -⟩ := spec.2.2 ok
  refine ⟨by decide, ok, ?_⟩
  rw [unique t unfolds]
  exact written

end SaveContainer.Graph
