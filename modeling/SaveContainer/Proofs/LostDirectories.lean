import SaveContainer.Disk.Change
import SaveContainer.Proofs.Rebuilding
import SaveContainer.Proofs.StableNumbers

/-!
Directories that were open when they went away. Main statement: once the path of an open directory
leads nowhere, nothing is listed or printed of it any more, and it cannot be opened by its number
again, whatever happened before. What stands in its place is another matter: the path is followed
then, wherever it leads.
-/

namespace SaveContainer

namespace Path

variable {p q : Path}

theorem plainSteps_eq (p : Path) :
    Disk.plainSteps p = (pieces slash p.bytes).filter fun name => name ≠ [] ∧ name ≠ dot := by
  rw [Disk.plainSteps, steps_eq, List.filter_append, names, List.filter_filter]
  have last : (if p.endsInSlash then [dot] else []).filter (· ≠ dot) = [] := by
    split <;> simp
  rw [last, List.append_nil]
  simp [and_comm]

theorem ne_slash_of_mem_pieces {bytes : List UInt8} {piece : FileName}
    (mem : piece ∈ pieces slash bytes) : piece ≠ [slash] := by
  rintro rfl
  exact sep_notMem_of_mem_pieces mem (List.mem_singleton_self slash)

/-- The first piece of an absolute path is empty, and only the key of such a path has the slash. -/
theorem key_ends (p : Path) : ∃ first rest, pieces slash p.bytes = first :: rest ∧
    p.key = (if p.isAbsolute then [[slash]] else if first = [] then [] else [first]) ++
      (rest.filter fun name => name ≠ [] ∧ name ≠ dot) ∧ (p.isAbsolute → first = []) := by
  obtain ⟨first, rest, eq⟩ := exists_first_piece p.bytes
  refine ⟨first, rest, eq, by rw [key, eq], fun absolute => ?_⟩
  obtain ⟨tail, bytes⟩ := List.head?_eq_some_iff.mp (beq_iff_eq.mp absolute)
  rw [bytes, pieces, if_pos rfl] at eq
  exact (List.cons.inj eq).1.symm

theorem isAbsolute_iff_key (p : Path) : p.isAbsolute ↔ [slash] ∈ p.key := by
  obtain ⟨first, rest, eq, key, -⟩ := p.key_ends
  have others : ∀ piece ∈ first :: rest, piece ≠ [slash] := fun _ mem =>
    ne_slash_of_mem_pieces (eq ▸ mem)
  rw [key]
  cases p.isAbsolute with
  | true => simp
  | false =>
      refine iff_of_false Bool.false_ne_true fun mem => others [slash] ?_ rfl
      rcases List.mem_append.mp mem with mem | mem
      · split at mem
        · contradiction
        · split at mem
          · cases mem
          · exact List.mem_singleton.mp mem ▸ List.mem_cons_self ..
      · exact List.mem_cons_of_mem first (List.mem_filter.mp mem).1

theorem plainSteps_eq_key (p : Path) :
    Disk.plainSteps p = p.key.filter fun name => name ≠ [slash] ∧ name ≠ dot := by
  obtain ⟨first, rest, eq, key, head⟩ := p.key_ends
  have others : ∀ piece ∈ first :: rest, piece ≠ [slash] := fun _ mem =>
    ne_slash_of_mem_pieces (eq ▸ mem)
  have tail : (rest.filter fun name => name ≠ [] ∧ name ≠ dot).filter
      (fun name => name ≠ [slash] ∧ name ≠ dot) =
        rest.filter fun name => name ≠ [] ∧ name ≠ dot := by
    refine List.filter_eq_self.mpr fun name mem => ?_
    obtain ⟨within, kept⟩ := List.mem_filter.mp mem
    have kept := of_decide_eq_true kept
    exact decide_eq_true ⟨others name (List.mem_cons_of_mem first within), kept.2⟩
  rw [plainSteps_eq, key, eq, List.filter_append, tail]
  cases absolute : p.isAbsolute with
  | true => simp [head absolute]
  | false =>
      have slashless := others first (List.mem_cons_self ..)
      by_cases empty : first = []
      · simp [empty]
      · by_cases isDot : first = dot <;> simp [empty, isDot, slashless]

/-- The disk can be asked for the path at all. -/
structure IsUsable (p : Path) : Prop where
  zero_notMem : (0 : UInt8) ∉ p.bytes
  ne_nil : p.bytes ≠ []
  length_lt : p.bytes.length < Disk.pathLimit

end Path

namespace Disk

variable {disk : Disk} {p q : Path}

theorem isUsable_of_find {mode : LookupMode} {s : Spot} (found : disk.find mode p = .ok s) :
    p.IsUsable := by
  obtain ⟨zero, nonempty, short, -⟩ := (find_eq_ok_iff ..).mp found
  exact ⟨zero, nonempty, short⟩

theorem isDirectory_of_isRealDirectory (real : disk.isRealDirectory p) : disk.isDirectory p := by
  obtain ⟨s, found, directory⟩ := (disk.isRealDirectory_iff p).mp real
  rcases disk.find_sameOrLink p with same | ⟨s', target, found', link⟩
  · exact (disk.isDirectory_iff p).mpr ⟨s, same ▸ found, directory⟩
  · cases found.symm.trans found'
    rw [link] at directory
    cases directory

theorem isDirectory_of_passNames {mode : LookupMode}
    {onLink : List FileName → Spot → Except IoFault Spot} {names : List FileName} {s t : Spot}
    (passed : passNames mode onLink names s = .ok t) (directory : t.node.isDirectory) :
    s.node.isDirectory := by
  cases names with
  | nil =>
      cases passed
      exact directory
  | cons name names =>
      cases hs : s.node with
      | directory es => rfl
      | _ =>
          simp only [passNames, hs] at passed
          cases passed

-- A dot asks for a directory, as does whatever comes after it or the end of the lookup.
theorem passNames_filter_dot {onLink : List FileName → Spot → Except IoFault Spot} {t : Spot}
    (directory : t.node.isDirectory)
    (onLinks : ∀ names s, onLink names s = .ok t ↔
      onLink (names.filter (· ≠ Path.dot)) s = .ok t) (names : List FileName) (s : Spot) :
    passNames .through onLink names s = .ok t ↔
      passNames .through onLink (names.filter (· ≠ Path.dot)) s = .ok t := by
  induction names generalizing s with
  | nil => rfl
  | cons first names ih =>
      cases hs : s.node with
      | directory es =>
          by_cases dot : first = Path.dot
          · rw [List.filter_cons_of_neg (by simp [dot])]
            simp only [passNames, hs, if_pos dot]
            exact ih s
          rw [List.filter_cons_of_pos (by simp [dot])]
          simp only [passNames, hs, if_neg dot, LookupMode.through, Bool.true_or, if_true,
            Bool.false_and]
          by_cases up : first = Path.dotDot
          · simp only [if_pos up]
            exact ih s.up
          by_cases long : nameLimit < first.length
          · simp only [if_neg up, if_pos long]
          simp only [if_neg up, if_neg long]
          cases hl : es.lookup first with
          | none => rfl
          | some n =>
              cases n with
              | link target =>
                  dsimp only
                  rw [onLinks (target.steps ++ names), onLinks (target.steps ++ _),
                    List.filter_append, List.filter_append, List.filter_filter]
                  simp
              | _ => exact ih _
      | _ =>
          have never (names : List FileName) : passNames .through onLink names s ≠ .ok t := by
            intro passed
            have atStart := isDirectory_of_passNames passed directory
            rw [hs] at atStart
            cases atStart
          exact iff_of_false (never _) (never _)

theorem passLinks_filter_dot {t : Spot} (directory : t.node.isDirectory) (links : Nat)
    (names : List FileName) (s : Spot) :
    passLinks .through links names s = .ok t ↔
      passLinks .through links (names.filter (· ≠ Path.dot)) s = .ok t := by
  induction links generalizing names s with
  | zero => exact passNames_filter_dot directory (fun _ _ => Iff.rfl) names s
  | succ links ih => exact passNames_filter_dot directory ih names s

/-- Paths with the same components lead to the same directory, if they lead to one. -/
theorem isDirectory_of_key (usable : q.IsUsable) (same : p.key = q.key)
    (directory : disk.isDirectory p) : disk.isDirectory q := by
  have absolute : p.isAbsolute = q.isAbsolute := by
    rw [Bool.eq_iff_iff, p.isAbsolute_iff_key, q.isAbsolute_iff_key, same]
  have steps : p.steps.filter (· ≠ Path.dot) = q.steps.filter (· ≠ Path.dot) :=
    p.plainSteps_eq_key.trans (same ▸ q.plainSteps_eq_key.symm)
  obtain ⟨t, found, atEnd⟩ := (disk.isDirectory_iff p).mp directory
  obtain ⟨-, -, -, s, start, passed⟩ := (find_eq_ok_iff ..).mp found
  rw [passLinks_filter_dot atEnd, steps, ← passLinks_filter_dot atEnd] at passed
  rw [absolute] at start
  refine (disk.isDirectory_iff q).mpr ⟨t, (find_eq_ok_iff ..).mpr ?_, atEnd⟩
  exact ⟨usable.zero_notMem, usable.ne_nil, usable.length_lt, s, start, passed⟩

end Disk

namespace Extracted

open Moment

variable {D : Disk → Prop} {N : ShortName → Prop} {p : Path} {t : PathTable}
  {ds : List ExtractedDirectory} {disk : Disk} {d : ExtractedDirectory} {cause : IoFault}

theorem isDirectory_of_canOpen {ino : Ino} {q : Path} (can : canOpen disk ino q) :
    disk.isDirectory q := by
  unfold canOpen at can
  split at can
  · exact can
  · exact Disk.isDirectory_of_isRealDirectory can

theorem isUsable_of_isDirectory {q : Path} (directory : disk.isDirectory q) : q.IsUsable := by
  obtain ⟨s, found, -⟩ := (disk.isDirectory_iff q).mp directory
  exact Disk.isUsable_of_find found

theorem Reached.isUsable (h : Reached D N p t ds) : ∀ d ∈ ds, d.path.IsUsable := by
  refine (h.holds (P := fun _ => True) (H := Path.IsUsable) trivial ?_ ?_ ?_).2
  · exact fun _ _ _ _ _ can _ => isUsable_of_isDirectory (isDirectory_of_canOpen can)
  · exact fun _ _ _ _ _ _ _ _ _ _ => trivial
  · exact fun _ _ _ _ _ _ real =>
      ⟨trivial, isUsable_of_isDirectory (Disk.isDirectory_of_isRealDirectory real)⟩

theorem list_of_lost (lost : disk.node d.path = .error cause) (kind : EntryKind) (t : PathTable) :
    list disk d kind t = ⟨.error (.io (.listing d.path cause)), t, []⟩ := by
  rw [list_run, Disk.listing_eq, lost]
  rfl

theorem printBelow_of_lost (lost : disk.node d.path = .error cause) {depth : Nat}
    (within : depth ≤ maxDepth) (t : PathTable) (k : Sink) :
    (hierarchy disk).printBelow depth d (t, k) =
      ⟨.error (.list d.ino .directory (.io (.listing d.path cause))), (t, k), []⟩ := by
  have levels : maxDepth + 1 - depth = maxDepth - depth + 1 := Nat.succ_sub within
  have listed : (hierarchy disk).list d .directory t = _ := list_of_lost lost .directory t
  have failed := congrArg Outcome.result listed
  have stopped : (hierarchy disk).forEntries depth d .directory
      ((hierarchy disk).printDirectory (maxDepth - depth) depth d) (t, k) = _ :=
    Hierarchy.forEntries_of_error failed
  rw [Hierarchy.printBelow, levels, Hierarchy.printWithin_succ,
    Act.bind_of_error (congrArg Outcome.result stopped), stopped, listed]
  rfl

/-- A number stands for the path that was first seen with the same components. -/
theorem openDirectory_refused {m : Moment} (numbered : m.Numbered p) (held : d ∈ m.held)
    (closed : ∀ first, m.table.path? d.ino = some first → first.key = d.path.key →
      ¬canOpen disk d.ino first) :
    openDirectory disk d.ino m.table = ⟨.error (.missing (.notADirectory d.ino)), m.table, []⟩ := by
  obtain ⟨first, found, same⟩ := numbered.sound.number?_eq_some_iff.mp (numbered.held d held)
  rw [openDirectory_run, found]
  exact if_neg (closed first found same)

theorem openDirectory_of_lost {m : Moment} (numbered : m.Numbered p) (held : d ∈ m.held)
    (usable : d.path.IsUsable) (lost : disk.node d.path = .error cause) :
    openDirectory disk d.ino m.table = ⟨.error (.missing (.notADirectory d.ino)), m.table, []⟩ := by
  refine openDirectory_refused numbered held fun first _ same can => ?_
  have directory := Disk.isDirectory_of_key usable same (isDirectory_of_canOpen can)
  rw [Disk.isDirectory, lost] at directory
  cases directory

/-- With names of one component, a number is that of one path only. -/
theorem openDirectory_of_replaced {m : Moment} (nonempty : p.bytes ≠ [])
    (reached : Reached OnDisk OfPart p m.table m.held) (numbered : m.Numbered p)
    (held : d ∈ m.held) (notRoot : d.ino ≠ rootIno) (replaced : ¬disk.isRealDirectory d.path) :
    openDirectory disk d.ino m.table = ⟨.error (.missing (.notADirectory d.ino)), m.table, []⟩ := by
  refine openDirectory_refused numbered held fun first found same => ?_
  obtain ⟨table, paths⟩ := reached.isBelow
  rw [(table.all _ _ found).eq_of_key (paths d held) nonempty same, canOpen, if_neg notRoot]
  exact replaced

/-- Whatever happened before: when the path of an open directory leads nowhere, not even through
links, then listing it, printing it and opening it by its number fail. By its number it cannot be
opened, either, when something else than a directory has come in its place, as long as directories
are only asked for by names of one component. -/
theorem lost_of_run {p : Path} {disk₀ : Disk} {t₀ : PathTable}
    (root : (openRoot disk₀ p ()).result = .ok t₀) :
    (∀ m, Run (fun _ => True) (fun _ => True) (start t₀) m → ∀ d ∈ m.held,
      ∀ disk cause, disk.node d.path = .error cause →
        (∀ kind, list disk d kind m.table =
          ⟨.error (.io (.listing d.path cause)), m.table, []⟩) ∧
        (∀ depth k, depth ≤ maxDepth → (hierarchy disk).printBelow depth d (m.table, k) =
          ⟨.error (.list d.ino .directory (.io (.listing d.path cause))), (m.table, k), []⟩) ∧
        openDirectory disk d.ino m.table =
          ⟨.error (.missing (.notADirectory d.ino)), m.table, []⟩) ∧
    (OnDisk disk₀ → ∀ m, Run OnDisk OfPart (start t₀) m → ∀ d ∈ m.held, d.ino ≠ rootIno →
      ∀ disk : Disk, ¬disk.isRealDirectory d.path → openDirectory disk d.ino m.table =
        ⟨.error (.missing (.notADirectory d.ino)), m.table, []⟩) := by
  refine ⟨fun m run d held disk cause lost => ?_, fun now m run d held notRoot disk replaced => ?_⟩
  · obtain ⟨m', calls, within⟩ := run.calls fun _ _ _ _ _ _ _ _ _ => trivial
    obtain ⟨numbered, -⟩ := (numbered_start root).calls calls
    have held' := within.held held
    have usable := (calls.reached trivial root).isUsable d held'
    have refused := openDirectory_of_lost numbered held' usable lost
    rw [within.table] at refused
    exact ⟨fun kind => list_of_lost lost kind m.table,
      fun depth k deep => printBelow_of_lost lost deep m.table k, refused⟩
  · obtain ⟨m', calls, within⟩ := run.calls ofPart_of_listed
    obtain ⟨numbered, -⟩ := (numbered_start root).calls calls
    have nonempty := (isUsable_of_isDirectory (openRoot_ok root).2).ne_nil
    have refused := openDirectory_of_replaced nonempty (calls.reached now root) numbered
      (within.held held) notRoot replaced
    rwa [within.table] at refused

section Nested

/-- The directory `c` of a disk, as the root of a container. -/
def outer : ExtractedDirectory := ⟨⟨[0x63]⟩, rootIno⟩

/-- The directory `d` in it. -/
def inner : ExtractedDirectory := ⟨⟨[0x63, 0x2F, 0x64]⟩, 2⟩

/-- When both were opened, the outer one first. -/
def bothOpen : Moment :=
  ⟨((PathTable.ofRoot outer.path).assign inner.path).2, [inner, outer],
    [(inner.path, 2), (outer.path, rootIno)]⟩

theorem run_bothOpen (now : D nestedDisk) (allowed : ∀ n : ShortName, n.toBytes = [0x64] → N n) :
    Run D N (start (.ofRoot outer.path)) bothOpen := by
  let name : ShortName := ⟨#v[0x64, 0, 0, 0, 0, 0, 0, 0, 0, 0, 0, 0, 0, 0, 0, 0], 1,
    by decide, by decide⟩
  let t := PathTable.ofRoot outer.path
  have root : openDirectory nestedDisk rootIno t = _ :=
    openDirectory_root (PathTable.path?_ofRoot outer.path) (by decide +kernel)
  have first : Moment.Call D N (start t)
      ((start t).opened (openDirectory nestedDisk rootIno t)) := .openDirectory rootIno now
  rw [root] at first
  have sub : subdirectory nestedDisk outer name t =
      ⟨.ok inner, bothOpen.table, [.event (.openDirectory .directory 2)]⟩ := by
    have path : outer.path.join (Path.ofText name.display) = inner.path := by decide +kernel
    have number : (t.assign inner.path).1 = 2 := by decide +kernel
    have run := subdirectory_run nestedDisk outer name t
    dsimp only at run
    rw [path, if_pos (by decide +kernel), number] at run
    exact run
  have second : Moment.Call D N ⟨t, [outer], [(outer.path, rootIno)]⟩
      (Moment.opened _ (subdirectory nestedDisk outer name t)) :=
    .subdirectory now (List.mem_singleton_self outer) (allowed name (by decide +kernel))
  rw [sub] at second
  exact .tail (.single (.call first)) (.call second)

theorem lost_of_run_removed :
    let gone := diskWith []
    let cause : IoFault := .listing inner.path .notFound
    (∀ kind, list gone inner kind bothOpen.table = ⟨.error (.io cause), bothOpen.table, []⟩) ∧
      (hierarchy gone).printBelow 0 inner (bothOpen.table, .unlimited) =
        ⟨.error (.list 2 .directory (.io cause)), (bothOpen.table, .unlimited), []⟩ ∧
      openDirectory gone 2 bothOpen.table =
        ⟨.error (.missing (.notADirectory 2)), bothOpen.table, []⟩ := by
  intro gone cause
  have root : (openRoot nestedDisk outer.path ()).result = .ok (.ofRoot outer.path) := rfl
  have mem : inner ∈ bothOpen.held := List.mem_cons_self ..
  have run : Run (fun _ => True) (fun _ => True) _ bothOpen :=
    run_bothOpen trivial fun _ _ => trivial
  have lost : gone.node inner.path = .error .notFound := rfl
  obtain ⟨listed, printed, -⟩ := (lost_of_run root).1 bothOpen run inner mem gone .notFound lost
  have parts : Run OnDisk OfPart _ bothOpen :=
    run_bothOpen wellFormed_nestedDisk fun n eq => by rw [OfPart, eq]; decide
  exact ⟨listed, printed 0 .unlimited (Nat.zero_le _),
    (lost_of_run root).2 wellFormed_nestedDisk bothOpen parts inner mem (by decide) gone
      (by decide +kernel)⟩

/-- A file in the place of the directory is listed as an empty directory, and a link as what it
leads to. Opening by the number refuses both. -/
theorem list_of_replaced :
    let byFile := diskWith [([0x64], .file .empty)]
    let byLink := diskWith
      [([0x64], .link ⟨[0x65]⟩), ([0x65], .directory [([0x66], .directory [])])]
    let t := bothOpen.table
    Run OnDisk OfPart (start (.ofRoot outer.path)) bothOpen ∧ inner ∈ bothOpen.held ∧
      (¬byFile.isRealDirectory inner.path ∧
        (∀ kind, (list byFile inner kind t).result = .ok []) ∧
        ((hierarchy byFile).printBelow 0 inner (t, .unlimited)).result = .ok () ∧
        (openDirectory byFile 2 t).result = .error (.missing (.notADirectory 2))) ∧
      ¬byLink.isRealDirectory inner.path ∧
        (list byLink inner .directory t).result.toOption.map (List.map Entry.ino) = some [3] ∧
        (openDirectory byLink 2 t).result = .error (.missing (.notADirectory 2)) := by
  intro byFile byLink t
  have parts : Run OnDisk OfPart _ bothOpen :=
    run_bothOpen wellFormed_nestedDisk fun n eq => by rw [OfPart, eq]; decide
  refine ⟨parts, List.mem_cons_self .., ⟨by decide +kernel, fun kind => ?_, by decide +kernel,
    by decide +kernel⟩, by decide +kernel, by decide +kernel, by decide +kernel⟩
  cases kind <;> decide +kernel

end Nested

end Extracted
end SaveContainer
