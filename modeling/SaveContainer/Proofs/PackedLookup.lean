import SaveContainer.Proofs.CatalogueGrowth
import SaveContainer.Proofs.PackedPrinting

/-!
The three ways to the entries of an archive: by listing a directory, by a name in it and by a
number. Main statement: in an archive that opens they always agree, and each node but the root is
listed in one place.
-/

namespace SaveContainer

namespace Catalogue

variable (c : Catalogue) (d : Ino) (kind : EntryKind)

theorem map_ino_entries : (c.entries d kind).map Entry.ino = c.children d kind := by
  rw [entries, List.map_map]
  exact List.map_id _

theorem map_name_entries :
    (c.entries d kind).map Entry.name = (c.children d kind).map c.nameOf := by
  rw [entries, List.map_map]
  rfl

theorem mem_entries {e : Entry} :
    e ∈ c.entries d kind ↔ e.ino ∈ c.children d kind ∧ c.nameOf e.ino = e.name := by
  rw [entries, List.mem_map]
  constructor
  · rintro ⟨ino, mem, rfl⟩
    exact ⟨mem, rfl⟩
  · rintro ⟨mem, name⟩
    exact ⟨e.ino, mem, by rw [name]⟩

variable {c d kind}

theorem isDirectory_of_mem_children {ino : Ino} (mem : ino ∈ c.children d kind) :
    c.isDirectory d := by
  unfold children at mem
  unfold isDirectory
  cases found : c.node? d with
  | none =>
      rw [found] at mem
      cases mem
  | some n =>
      rw [found] at mem
      cases at_n : n.content with
      | directory directories files =>
          rw [Option.map_some, at_n]
          rfl
      | file => simp [at_n, Content.children] at mem

theorem number_of_isDirectory {ino : Ino} (directory : c.isDirectory ino) :
    rootIno ≤ ino ∧ ino ≤ c.nodes.size := by
  cases ino with
  | zero => cases directory
  | succ i =>
      refine ⟨Nat.succ_pos i, Nat.lt_of_not_le fun beyond => ?_⟩
      have none : c.node? (i + 1) = none := Array.getElem?_eq_none beyond
      rw [isDirectory, none] at directory
      cases directory

namespace Coherent

variable (h : c.Coherent)
include h

theorem isDirectory_child {ino : Ino} (mem : ino ∈ c.children d kind) :
    c.isDirectory ino ↔ kind = .directory := by
  obtain ⟨n, found, same⟩ := h.kind d kind ino mem
  rw [isDirectory, found]
  exact same

theorem exists_parent {ino : Ino} (pos : rootIno < ino) (le : ino ≤ c.nodes.size) :
    ∃ parent kind, ino ∈ c.children parent kind ∧ ∀ parent' kind',
      (c.children parent' kind').count ino = if parent' = parent ∧ kind' = kind then 1 else 0 := by
  obtain ⟨parent, kind, -, once⟩ := h.listed_once ino pos le
  have count := once parent kind
  rw [if_pos ⟨rfl, rfl⟩] at count
  exact ⟨parent, kind, List.count_pos_iff.mp (by omega), once⟩

theorem isDirectory_iff {ino : Ino} :
    c.isDirectory ino ↔ ino = rootIno ∨ ∃ d, ino ∈ c.children d .directory := by
  constructor
  · intro directory
    obtain ⟨pos, le⟩ := number_of_isDirectory directory
    rcases Nat.eq_or_lt_of_le pos with rfl | more
    · exact .inl rfl
    · obtain ⟨parent, kind, mem, -⟩ := h.exists_parent more le
      obtain rfl := (h.isDirectory_child mem).mp directory
      exact .inr ⟨parent, mem⟩
  · rintro (rfl | ⟨d, mem⟩)
    · exact h.root
    · exact (h.isDirectory_child mem).mpr rfl

end Coherent

end Catalogue

namespace Packed

open Catalogue Place

variable {σ : Type} {c : Catalogue}

theorem openDirectory_run (c : Catalogue) (ino : Ino) (s : σ) :
    openDirectory c ino s =
      if c.isDirectory ino then ⟨.ok ino, s, [.event (.openDirectory .archive ino)]⟩
      else ⟨.error (.missing (.directory ino)), s, []⟩ := by
  rw [openDirectory]
  split <;> rfl

theorem openDirectory_ok_iff {ino d : Ino} {s : σ} :
    (openDirectory c ino s).result = .ok d ↔ d = ino ∧ c.isDirectory ino := by
  rw [openDirectory_run]
  split
  · next directory => simp [directory, eq_comm]
  · next other => simp [other]

theorem list_of_isDirectory {d : Ino} (directory : c.isDirectory d) (kind : EntryKind) (s : σ) :
    list c d kind s = ⟨.ok (c.entries d kind), s, []⟩ := by
  rw [list, if_pos directory]
  rfl

theorem subdirectory_ends (c : Catalogue) (d : Ino) (n : ShortName) (s : σ) :
    (∃ sub, c.number? d n = some sub ∧ c.isDirectory sub ∧
        (subdirectory c d n s).result = .ok sub) ∨
      (∀ sub, c.number? d n = some sub → ¬c.isDirectory sub) ∧
        (subdirectory c d n s).result = .error (.missing (.subdirectory n d)) := by
  unfold subdirectory
  cases found : c.number? d n with
  | none => exact .inr ⟨nofun, rfl⟩
  | some sub =>
      dsimp only
      by_cases directory : c.isDirectory sub
      · rw [if_pos directory]
        exact .inl ⟨sub, rfl, directory, rfl⟩
      · rw [if_neg directory]
        refine .inr ⟨fun sub' eq => ?_, rfl⟩
        cases eq
        exact directory

theorem subdirectory_ok_iff (h : c.Coherent) {d sub : Ino} {n : ShortName} {s : σ} :
    (subdirectory c d n s).result = .ok sub ↔ ⟨n, sub⟩ ∈ c.entries d .directory := by
  have entry : c.number? d n = some sub ∧ c.isDirectory sub ↔ ⟨n, sub⟩ ∈ c.entries d .directory := by
    rw [h.number, mem_entries]
    constructor
    · rintro ⟨⟨⟨kind, mem⟩, name⟩, directory⟩
      obtain rfl := (h.isDirectory_child mem).mp directory
      exact ⟨mem, name⟩
    · rintro ⟨mem, name⟩
      exact ⟨⟨⟨_, mem⟩, name⟩, (h.isDirectory_child mem).mpr rfl⟩
  rw [← entry]
  rcases subdirectory_ends c d n s with ⟨sub', found, directory, ok⟩ | ⟨none, refused⟩
  · rw [ok, found, Except.ok.injEq, Option.some.injEq]
    exact ⟨fun eq => ⟨eq, eq ▸ directory⟩, And.left⟩
  · rw [refused]
    exact iff_of_false nofun fun ⟨found, directory⟩ => none sub found directory

/-- The directories that can be open: those opened by number, and those opened by name below one
that is open. -/
inductive Opened (σ : Type) (c : Catalogue) : Ino → Prop
  | byNumber {s : σ} {ino d : Ino} : (openDirectory c ino s).result = .ok d → Opened σ c d
  | byName {s : σ} {d sub : Ino} {n : ShortName} :
      Opened σ c d → (subdirectory c d n s).result = .ok sub → Opened σ c sub

/-- The names lead from the root to a directory, when one after the other is opened. -/
inductive Entered (σ : Type) (c : Catalogue) : List ShortName → Ino → Prop
  | root {s : σ} {d : Ino} : (openDirectory c rootIno s).result = .ok d → Entered σ c [] d
  | further {s : σ} {names : List ShortName} {d sub : Ino} {n : ShortName} :
      Entered σ c names d → (subdirectory c d n s).result = .ok sub → Entered σ c (names ++ [n]) sub

theorem Opened.isDirectory {d : Ino} (opened : Opened σ c d) : c.isDirectory d := by
  cases opened with
  | byNumber ok =>
      obtain ⟨rfl, directory⟩ := openDirectory_ok_iff.mp ok
      exact directory
  | @byName s d sub n _ ok =>
      rcases subdirectory_ends c d n s with ⟨sub', -, directory, ok'⟩ | ⟨-, refused⟩
      · cases ok.symm.trans ok'
        exact directory
      · cases ok.symm.trans refused

theorem opened_of_isDirectory {d : Ino} (s : σ) (directory : c.isDirectory d) : Opened σ c d :=
  .byNumber (openDirectory_ok_iff.mpr ⟨rfl, directory⟩ : (openDirectory c d s).result = .ok d)

theorem Entered.opened {names : List ShortName} {d : Ino} (entered : Entered σ c names d) :
    Opened σ c d := by
  induction entered with
  | root ok => exact .byNumber ok
  | further _ ok ih => exact ih.byName ok

theorem entered_of_leads (h : c.Coherent) (s : σ) {names : List ShortName} {ino : Ino}
    (leads : c.Leads names ino) (directory : c.isDirectory ino) : Entered σ c names ino := by
  induction leads with
  | root => exact .root (openDirectory_ok_iff.mpr ⟨rfl, h.root⟩ : (openDirectory c _ s).result = _)
  | @child names parent ino kind _ mem ih =>
      obtain rfl := (h.isDirectory_child mem).mp directory
      have entry : ⟨c.nameOf ino, ino⟩ ∈ c.entries parent .directory :=
        (c.mem_entries parent .directory).mpr ⟨mem, rfl⟩
      have ok : (subdirectory c parent (c.nameOf ino) s).result = .ok ino :=
        (subdirectory_ok_iff h).mpr entry
      exact (ih (isDirectory_of_mem_children mem)).further ok

/-- What is listed, what is found by name and what is found by number are the same entries. -/
structure WaysAgree (σ : Type) (c : Catalogue) : Prop where
  listed : ∀ d, Opened σ c d → ∀ kind (s : σ), list c d kind s = ⟨.ok (c.entries d kind), s, []⟩
  names_differ : ∀ d, ((c.entries d .directory ++ c.entries d .file).map Entry.name).Nodup
  byName : ∀ d, Opened σ c d → ∀ n sub (s : σ),
    (subdirectory c d n s).result = .ok sub ↔ ⟨n, sub⟩ ∈ c.entries d .directory
  noName : ∀ d, Opened σ c d → ∀ n, (∀ e ∈ c.entries d .directory, e.name ≠ n) → ∀ s : σ,
    (subdirectory c d n s).result = .error (.missing (.subdirectory n d))
  fileName : ∀ d, Opened σ c d → ∀ e ∈ c.entries d .file, ∀ s : σ,
    (subdirectory c d e.name s).result = .error (.missing (.subdirectory e.name d))
  byNumber : ∀ ino d (s : σ), (openDirectory c ino s).result = .ok d ↔
    d = ino ∧ (ino = rootIno ∨ ∃ d, Opened σ c d ∧ ∃ e ∈ c.entries d .directory, e.ino = ino)
  noNumber : ∀ ino (s : σ), ino ≠ rootIno →
    (∀ d, Opened σ c d → ∀ e ∈ c.entries d .directory, e.ino ≠ ino) →
    (openDirectory c ino s).result = .error (.missing (.directory ino))
  listed_once : ∀ ino, rootIno < ino → ino ≤ c.nodes.size → ∃ d kind, Opened σ c d ∧
    ∀ d' kind', ((c.entries d' kind').map Entry.ino).count ino =
      if d' = d ∧ kind' = kind then 1 else 0
  byNames : ∀ ino d (s : σ), (openDirectory c ino s).result = .ok d ↔
    d = ino ∧ ∃ names, Entered σ c names d

theorem listed_iff (s : σ) {ino : Ino} : (∃ d, ino ∈ c.children d .directory) ↔
    ∃ d, Opened σ c d ∧ ∃ e ∈ c.entries d .directory, e.ino = ino := by
  constructor
  · rintro ⟨d, mem⟩
    exact ⟨d, opened_of_isDirectory s (isDirectory_of_mem_children mem), ⟨c.nameOf ino, ino⟩,
      (c.mem_entries d .directory).mpr ⟨mem, rfl⟩, rfl⟩
  · rintro ⟨d, -, e, mem, rfl⟩
    exact ⟨d, ((c.mem_entries d .directory).mp mem).1⟩

theorem waysAgree (h : c.Coherent) (s₀ : σ) : WaysAgree σ c where
  listed d opened kind s := list_of_isDirectory opened.isDirectory kind s
  names_differ d := by
    rw [List.map_append, map_name_entries, map_name_entries, ← List.map_append]
    exact h.names_differ d
  byName _ _ _ _ _ := subdirectory_ok_iff h
  noName := by
    intro d _ n none s
    rcases subdirectory_ends c d n s with ⟨sub, -, -, ok⟩ | ⟨-, refused⟩
    · exact absurd rfl (none _ ((subdirectory_ok_iff h).mp ok))
    · exact refused
  fileName := by
    intro d _ e mem s
    rcases subdirectory_ends c d e.name s with ⟨sub, -, -, ok⟩ | ⟨-, refused⟩
    · -- A sub-directory of this name would be the file itself.
      have entry := (c.mem_entries d .directory).mp ((subdirectory_ok_iff h).mp ok)
      obtain ⟨file, name⟩ := (c.mem_entries d .file).mp mem
      have found := (h.number d e.name sub).mpr ⟨⟨_, entry.1⟩, entry.2⟩
      have found' := (h.number d e.name e.ino).mpr ⟨⟨_, file⟩, name⟩
      cases found.symm.trans found'
      have directory := (h.isDirectory_child entry.1).mpr rfl
      cases (h.isDirectory_child file).mp directory
    · exact refused
  byNumber ino d s := by
    rw [openDirectory_ok_iff, h.isDirectory_iff, listed_iff s]
  noNumber := by
    intro ino s other unlisted
    rw [openDirectory_run, if_neg]
    intro directory
    obtain ⟨d, opened, e, mem, eq⟩ := (listed_iff s).mp
      ((h.isDirectory_iff.mp directory).resolve_left other)
    exact unlisted d opened e mem eq
  listed_once := by
    intro ino pos le
    obtain ⟨parent, kind, mem, once⟩ := h.exists_parent pos le
    refine ⟨parent, kind, opened_of_isDirectory s₀ (isDirectory_of_mem_children mem), ?_⟩
    intro d' kind'
    rw [map_ino_entries, once]
  byNames ino d s := by
    rw [openDirectory_ok_iff]
    refine and_congr_right fun eq => ⟨fun directory => ?_, fun ⟨names, entered⟩ => ?_⟩
    · subst eq
      obtain ⟨pos, le⟩ := number_of_isDirectory directory
      obtain ⟨names, leads⟩ := h.reached d pos le
      exact ⟨names, entered_of_leads h s leads directory⟩
    · subst eq
      exact entered.opened.isDirectory

/-- Of every archive that opens, whatever its bytes. -/
theorem ways_agree_of_opened {medium : Zip.Medium} {data : ByteArray} {s : σ} {c : Catalogue}
    (opened : (ofBytes medium data s).result = .ok c) : WaysAgree σ c := by
  obtain ⟨listed, -, built⟩ := ofMembers_of_opened opened
  obtain ⟨settled, all, represents, short⟩ := exists_settled_of_ofMembers built
  exact waysAgree (represents.coherent (Grown.nil.settles_members all) short) s

theorem ways_agree_of_smallArchive :
    ∃ c, ((ofBytes .memory smallArchive : Act Unit Catalogue) ()).result = .ok c ∧
      WaysAgree Unit c := by
  cases opened : ((ofBytes .memory smallArchive : Act Unit Catalogue) ()).result with
  | error e =>
      have : ((ofBytes .memory smallArchive : Act Unit Catalogue) ()).result.toOption.isSome := by
        decide +kernel
      simp [opened, Except.toOption] at this
  | ok c => exact ⟨c, rfl, ways_agree_of_opened opened⟩

end Packed

end SaveContainer
