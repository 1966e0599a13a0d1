import SaveContainer.Proofs.DiskTree
import SaveContainer.Proofs.PathBelow
import SaveContainer.Proofs.Quiet
import SaveContainer.Proofs.StableNumbers

/-!
Printing an extracted container. Main statement: whatever the container has been through, the text
is that of the tree that stands on the disk now, and there is one exactly when the tree fits; the
numbers that were given before do not show.
-/

namespace SaveContainer.Extracted

open Node

variable {disk : Disk} {d : ExtractedDirectory}

/-- What a handle stands for, as long as its path leads somewhere. -/
def standsFor (disk : Disk) (d : ExtractedDirectory) : Node :=
  (disk.node d.path).toOption.getD .device

/-- Hung below `p`, the paths of all directories in `n` are short enough to be looked up. -/
def InReach (p : Path) (n : Node) : Prop :=
  ∀ names es, n.Leads names (.directory es) → (p.below names).bytes.length < Disk.pathLimit

/-- The path leads to a directory, and none below it is out of reach. -/
def Sighted (disk : Disk) (d : ExtractedDirectory) : Prop :=
  ∃ s, disk.find .through d.path = .ok s ∧ s.node.isDirectory ∧ InReach d.path s.node

theorem standsFor_eq {s : Spot} (found : disk.find .through d.path = .ok s) :
    standsFor disk d = s.node := by
  rw [standsFor, Disk.node_of_find found]
  rfl

theorem view_names (n : Node) (kind : EntryKind) :
    view.names n kind = (named? (n.listed kind)).map (List.map Prod.fst) := by
  cases kind <;> rfl

/-- The names that are taken up do not depend on the numbers that go with them. -/
theorem names_of_takeEntries (d : ExtractedDirectory) (es : List (FileName × Node))
    (t : PathTable) :
    (takeEntries d (es.map Prod.fst) t).result.toOption.map (List.map Entry.name) =
      (named? es).map (List.map Prod.fst) := by
  induction es generalizing t with
  | nil => rfl
  | cons e rest ih =>
      rw [List.map_cons, takeEntries_cons, named?]
      cases named : entryName e.1 with
      | error fault => rfl
      | ok name =>
          have others := ih (t.assign (d.path.join ⟨e.1⟩)).2
          dsimp only
          generalize (takeEntries d (rest.map Prod.fst)
            (t.assign (d.path.join ⟨e.1⟩)).2).result = taken at others ⊢
          generalize named? rest = names at others ⊢
          cases taken with
          | error fault =>
              cases names with
              | none => rfl
              | some xs => cases others
          | ok entries =>
              cases names with
              | none => cases others
              | some xs =>
                  have same : entries.map Entry.name = xs.map Prod.fst := Option.some.inj others
                  exact congrArg (fun rest => some (name :: rest)) same

theorem Sighted.list {kind : EntryKind} (h : Sighted disk d) (t : PathTable) :
    (list disk d kind t).result.toOption.map (List.map Entry.name) =
      view.names (standsFor disk d) kind := by
  obtain ⟨s, found, -⟩ := h
  have entries : disk.listing d.path = .ok (Disk.sorted s.node.entries) :=
    Disk.listing_eq_ok_iff.mpr ⟨_, Disk.node_of_find found, rfl⟩
  rw [list_run, entries, standsFor_eq found, view_names]
  exact names_of_takeEntries d _ t

theorem Sighted.enter (wellFormed : OnDisk disk) (h : Sighted disk d)
    {subs : List (ShortName × Node)} (listed : view.directories (standsFor disk d) = some subs)
    {name : ShortName} {n : Node} (mem : (name, n) ∈ subs) (t : PathTable) :
    ∃ c, (subdirectory disk d name t).result = .ok c ∧ standsFor disk c = n ∧
      Sighted disk c := by
  obtain ⟨s, found, directory, short⟩ := h
  rw [standsFor_eq found] at listed
  obtain ⟨raw, entry, named⟩ := exists_of_named? listed mem
  obtain ⟨inside, kind⟩ := mem_listed.mp entry
  obtain ⟨es, at_s⟩ := exists_of_isDirectory directory
  obtain ⟨sub, rfl⟩ := exists_of_isDirectory (kindOf_eq_directory.mp kind)
  obtain ⟨rfl, text⟩ := entryName_ok named
  rw [at_s] at inside short
  have deeper : InReach (d.path.join ⟨name.toBytes⟩) (.directory sub) :=
    fun names es' leads => short (name.toBytes :: names) es' (.inside inside leads)
  obtain ⟨isName, through, opens⟩ :=
    Disk.find_through_entry wellFormed found at_s inside (deeper [] sub (.here _))
  have component : name.IsComponent := ⟨text, isName⟩
  have run : subdirectory disk d name t = _ := subdirectory_run disk d name t
  rw [component.ofText_display, if_pos opens] at run
  rw [run]
  exact ⟨_, rfl, standsFor_eq (d := ⟨_, _⟩) through, _, through, rfl, deeper⟩

theorem presentsOn (wellFormed : OnDisk disk) :
    (hierarchy disk).PresentsOn view (standsFor disk) (fun _ => True) (Sighted disk) where
  list d kind t sighted _ :=
    ⟨trivial, ((quiet disk).list d kind t).written, sighted.list t⟩
  enter d t _ sighted _ listed sub mem :=
    ⟨trivial, ((quiet disk).subdirectory d sub.1 t).written,
      sighted.enter wellFormed listed mem t⟩
  gotEntry _ _ _ := rfl
  releasedList _ _ := rfl
  released _ := rfl

/-- What a container prints, from any table that still has its root. -/
theorem text_decided (wellFormed : OnDisk disk) {p : Path} {es : List (FileName × Node)}
    (found : disk.node p = .ok (.directory es)) (short : InReach p (.directory es)) {t : PathTable}
    (root : t.path? rootIno = some p) :
    let result := ((hierarchy disk).text t).result
    (Fits maxDepth (.directory es) ∧
        ∃ tree, Shows (.directory es) tree ∧ result = .ok (String.ofList (tree.render 0))) ∨
      ((∃ e, result = .error e) ∧ ¬Fits maxDepth (.directory es)) := by
  obtain ⟨s, through, at_s⟩ := Disk.exists_of_node found
  have directory : disk.isDirectory p = true :=
    (disk.isDirectory_iff p).mpr ⟨s, through, by rw [at_s]; rfl⟩
  have opened := openDirectory_root root directory
  have sighted : Sighted disk ⟨p, rootIno⟩ := ⟨s, through, by rw [at_s]; rfl, at_s ▸ short⟩
  have shown := (presentsOn wellFormed).text_of_root (congrArg Outcome.result opened)
    (congrArg (fun o => o.trace.written) opened) trivial sighted
  have here := Disk.of_node Node.hereditary_wellFormed wellFormed found
  have fits := exists_unfolds_iff_fits maxDepth here
  rw [standsFor_eq through, at_s] at shown
  rcases shown with ⟨tree, unfolds, height, text⟩ | ⟨failed, high⟩
  · exact .inl ⟨fits.mp ⟨tree, unfolds, height⟩, tree, shows_of_unfolds here unfolds rfl, text⟩
  · refine .inr ⟨failed, fun all => ?_⟩
    obtain ⟨tree, unfolds, height⟩ := fits.mpr all
    exact Nat.not_lt.mpr height (high tree unfolds)

section Run

variable {p : Path} {disk₀ : Disk} {t₀ : PathTable} {m : Moment}

/-- Everything that a run adds to the table leaves the root where it is. -/
theorem root_of_run (root : (openRoot disk₀ p ()).result = .ok t₀)
    (run : Moment.Run (fun _ => True) (fun _ => True) (Moment.start t₀) m) :
    m.table.path? rootIno = some p := by
  obtain ⟨-, extends'⟩ := (numbered_start root).run (fun _ _ _ _ _ _ _ _ _ => trivial) run
  refine extends'.path? ?_
  rw [Moment.start, (openRoot_ok root).1]
  exact PathTable.path?_ofRoot p

theorem inReach_of_seen {n : Node} (seen : ∀ names es, n.Leads names (.directory es) →
    ∃ own, disk.ownNode (p.below names) = .ok own) : InReach p n := by
  intro names es leads
  obtain ⟨own, at_own⟩ := seen names es leads
  obtain ⟨s, found, -⟩ := Disk.exists_of_ownNode at_own
  exact ((Disk.find_eq_ok_iff ..).mp found).2.2.1

/-- Of what the container has been through only the disk as it is now shows in the text. -/
theorem text_of_run (root : (openRoot disk₀ p ()).result = .ok t₀)
    (run : Moment.Run (fun _ => True) (fun _ => True) (Moment.start t₀) m)
    (wellFormed : OnDisk disk) {es : List (FileName × Node)}
    (found : disk.node p = .ok (.directory es))
    (seen : ∀ names sub, (Node.directory es).Leads names (.directory sub) →
      ∃ own, disk.ownNode (p.below names) = .ok own) :
    let result := ((hierarchy disk).text m.table).result
    ((∃ text, result = .ok text) ↔ Fits maxDepth (.directory es)) ∧
      (∀ text, result = .ok text → ∃ tree, Shows (.directory es) tree ∧
        (∀ u, Shows (.directory es) u → u = tree) ∧ text = String.ofList (tree.render 0)) ∧
      ∀ m', Moment.Run (fun _ => True) (fun _ => True) (Moment.start t₀) m' →
        ∀ text, result = .ok text ↔ ((hierarchy disk).text m'.table).result = .ok text := by
  intro result
  have short := inReach_of_seen seen
  have decided := text_decided wellFormed found short (root_of_run root run)
  have other (m' : Moment)
      (run' : Moment.Run (fun _ => True) (fun _ => True) (Moment.start t₀) m') :=
    text_decided wellFormed found short (root_of_run root run')
  change (_ ∧ ∃ tree, _ ∧ result = _) ∨ ((∃ e, result = _) ∧ _) at decided
  rcases decided with ⟨fits, tree, shows', text⟩ | ⟨⟨e, failed⟩, misfit⟩
  · refine ⟨iff_of_true ⟨_, text⟩ fits, fun text' done => ?_, fun m' run' text' => ?_⟩
    · cases text.symm.trans done
      exact ⟨tree, shows', fun u hu => hu.unique shows', rfl⟩
    · rcases other m' run' with ⟨-, tree', shows'', same⟩ | ⟨-, misfit⟩
      · rw [text, same, shows'.unique shows'']
      · exact absurd fits misfit
  · refine ⟨iff_of_false (fun ⟨_, done⟩ => ?_) misfit, fun text' done => ?_,
      fun m' run' text' => ?_⟩
    · cases failed.symm.trans done
    · cases failed.symm.trans done
    · rcases other m' run' with ⟨fits, -⟩ | ⟨⟨e', failed'⟩, -⟩
      · exact absurd fits misfit
      · rw [failed, failed']
        exact iff_of_false nofun nofun

end Run

section Mixed

/-- A link to a directory, a file and a directory. -/
def mixedEntries : List (FileName × Node) :=
  [([0x62], .link ⟨[0x64]⟩), ([0x61], .file .empty), ([0x64], .directory [])]

def mixedDisk : Disk :=
  diskWith mixedEntries

theorem wellFormed_mixedDisk : OnDisk mixedDisk := by
  have leaf : (Node.directory []).WellFormed := .directory (by decide) .nil (List.forall_mem_nil _)
  have inner : ∀ e ∈ mixedEntries, e.2.WellFormed := by
    simp only [mixedEntries, List.forall_mem_cons]
    exact ⟨.link _, .file _, leaf, List.forall_mem_nil _⟩
  exact wellFormed_diskWith (.directory (by decide) (by decide) inner)

theorem leads_mixedEntries {names : List FileName} {es : List (FileName × Node)}
    (leads : (Node.directory mixedEntries).Leads names (.directory es)) :
    names = [] ∧ es = mixedEntries ∨ names = [[0x64]] ∧ es = [] := by
  cases leads with
  | here => exact .inl ⟨rfl, rfl⟩
  | inside mem below =>
      simp only [mixedEntries, List.mem_cons, List.not_mem_nil, or_false] at mem
      rcases mem with rfl | rfl | rfl
      · cases below
      · cases below
      · cases below with
        | here => exact .inr ⟨rfl, rfl⟩
        | inside none _ => cases none

/-- The text from the table that a first print leaves. -/
theorem text_of_printed :
    let p : Path := ⟨[0x63]⟩
    let t := PathTable.ofRoot p
    let printed := ((hierarchy mixedDisk).print (t, .unlimited)).state.1
    (openRoot mixedDisk p ()).result = .ok t ∧
      ((hierarchy mixedDisk).text printed).result = .ok "+d\n-a\n-b\n" := by
  intro p t printed
  have start : (openRoot mixedDisk p ()).result = .ok t := rfl
  have run : Moment.Run (fun _ => True) (fun _ => True) (Moment.start t)
      { Moment.start t with table := printed } := .single (.print .unlimited trivial)
  have seen : ∀ names sub, (Node.directory mixedEntries).Leads names (.directory sub) →
      ∃ own, mixedDisk.ownNode (p.below names) = .ok own := by
    intro names sub leads
    rcases leads_mixedEntries leads with ⟨rfl, -⟩ | ⟨rfl, -⟩
    · exact ⟨.directory mixedEntries, rfl⟩
    · exact ⟨.directory [], rfl⟩
  have fits : Fits maxDepth (.directory mixedEntries) := by
    refine ⟨fun names es leads _ => ?_, fun names es leads => ?_⟩
    · rcases leads_mixedEntries leads with ⟨-, rfl⟩ | ⟨-, rfl⟩
      · simp only [mixedEntries, List.forall_mem_cons]
        exact ⟨by decide, by decide, by decide, List.forall_mem_nil _⟩
      · exact List.forall_mem_nil _
    · rcases leads_mixedEntries leads with ⟨rfl, -⟩ | ⟨rfl, -⟩ <;> decide
  let name (b : UInt8) : ShortName := (ShortName.ofBytes [b]).toOption.getD .empty
  have shows' : Shows (.directory mixedEntries)
      (.directory (name 0x64) (.files []) (.files [name 0x61, name 0x62])) := by
    refine ⟨[([0x64], .directory [])], [([0x61], .file .empty), ([0x62], .link ⟨[0x64]⟩)],
      ⟨List.reverse_perm mixedEntries, by decide, by decide, ?_, ?_⟩, ?_⟩
    · exact List.pairwise_singleton _ _
    · exact List.pairwise_pair.mpr (by decide)
    · exact .directory (by decide) ⟨.nil, List.forall_mem_nil _, List.forall_mem_nil _, .nil, .nil⟩ (.files rfl)
        (.files (by decide))
  obtain ⟨decided, only, -⟩ := text_of_run start run wellFormed_mixedDisk rfl seen
  obtain ⟨text, done⟩ := decided.mpr fits
  obtain ⟨tree, -, unique, rfl⟩ := only text done
  rw [← unique _ shows'] at done
  exact ⟨start, done.trans (congrArg Except.ok (by decide))⟩

end Mixed

end SaveContainer.Extracted
