import SaveContainer.Proofs.Places
import SaveContainer.Proofs.Tree

/-!
Reading a printed tree. A line begins with as many spaces as its level, and a sign is no space, so
the level can be told whatever the name begins with. Lines are taken up from the last one on: what
is below a line is complete by then. Main statement: reading what was printed gives the tree back,
if its names are text on one line.
-/

namespace SaveContainer

/-- The name is text and has no line feed. -/
def ShortName.IsLine (n : ShortName) : Prop :=
  ∃ text, Utf8.decode? n.toBytes = some text ∧ '\n' ∉ text

instance (n : ShortName) : Decidable n.IsLine :=
  match h : Utf8.decode? n.toBytes with
  | some text => decidable_of_iff ('\n' ∉ text) (by simp [ShortName.IsLine, h])
  | none => .isFalse (by simp [ShortName.IsLine, h])

theorem ShortName.IsLine.lossy {n : ShortName} (h : n.IsLine) :
    Utf8.encode (Utf8.lossy n.toBytes) = n.toBytes ∧ '\n' ∉ Utf8.lossy n.toBytes := by
  obtain ⟨text, decoded, one⟩ := h
  have bytes := Utf8.decode?_eq_some_iff.mp decoded
  rw [← bytes, Utf8.lossy_encode]
  exact ⟨rfl, one⟩

/-- A line of a printed tree. -/
structure TreeLine where
  level : Nat
  kind : EntryKind
  name : ShortName
  deriving DecidableEq

namespace TreeLine

/-- The line as it is printed, without its end. -/
def content (l : TreeLine) : List Char :=
  List.replicate l.level ' ' ++ l.kind.marker :: Utf8.lossy l.name.toBytes

/-- The kind of what has this sign in front of its name. -/
def kindOf? : Char → Option EntryKind
  | '+' => some .directory
  | '-' => some .file
  | _ => none

def read? (content : List Char) : Option TreeLine :=
  match content.dropWhile (· = ' ') with
  | [] => none
  | sign :: name => do
    let kind ← kindOf? sign
    let name ← (ShortName.ofBytes (Utf8.encode name)).toOption
    return ⟨(content.takeWhile (· = ' ')).length, kind, name⟩

variable {l : TreeLine}

theorem newline_notMem_content (h : l.name.IsLine) : '\n' ∉ l.content := by
  have sign : '\n' ≠ l.kind.marker := by cases l.kind <;> decide
  simp [content, List.mem_replicate, sign, h.lossy.2]

/-- A name may begin with spaces, too: they come behind the sign. -/
theorem read?_content (h : l.name.IsLine) : read? l.content = some l := by
  obtain ⟨level, kind, name⟩ := l
  have blank : ∀ c ∈ List.replicate level ' ', decide (c = ' ') = true := by simp
  have sign : kind.marker ≠ ' ' := by cases kind <;> decide
  have known : kindOf? kind.marker = some kind := by cases kind <;> rfl
  have spaces : (content ⟨level, kind, name⟩).takeWhile (· = ' ') = List.replicate level ' ' := by
    rw [content, List.takeWhile_append_of_pos blank, List.takeWhile_cons_of_neg (by simp [sign]),
      List.append_nil]
  have behind : (content ⟨level, kind, name⟩).dropWhile (· = ' ') =
      kind.marker :: Utf8.lossy name.toBytes := by
    rw [content, List.dropWhile_append_of_pos blank, List.dropWhile_cons_of_neg (by simp [sign])]
  rw [read?, behind, spaces]
  simp only [known, h.lossy.1, ShortName.ofBytes_toBytes, List.length_replicate]
  rfl

theorem mapM_read?_content {ls : List TreeLine} (h : ∀ l ∈ ls, l.name.IsLine) :
    (ls.map content).mapM read? = some ls := by
  induction ls with
  | nil => rfl
  | cons l ls ih =>
      obtain ⟨here, after⟩ := List.forall_mem_cons.mp h
      rw [List.map_cons, List.mapM_cons, read?_content here, ih after]
      rfl

end TreeLine

theorem pieces_lines {α : Type} [DecidableEq α] {sep : α} {ls : List (List α)}
    (h : ∀ l ∈ ls, sep ∉ l) : pieces sep (ls.flatMap (· ++ [sep])) = ls ++ [[]] := by
  rw [pieces_eq_splitOn]
  induction ls with
  | nil => rfl
  | cons l ls ih =>
      obtain ⟨here, after⟩ := List.forall_mem_cons.mp h
      rw [List.flatMap_cons, List.append_assoc, List.singleton_append,
        List.splitOn_append_cons_self, List.splitOn_eq_singleton here, ih after]
      rfl

namespace Tree

/-- Every name in the tree. -/
def All (P : ShortName → Prop) : Tree → Prop
  | files names => ∀ name ∈ names, P name
  | directory name inside rest => P name ∧ inside.All P ∧ rest.All P

/-- The lines of a directory that stands at `level`, from the first one on. -/
def lines (level : Nat) : Tree → List TreeLine
  | files names => names.map fun name => ⟨level, .file, name⟩
  | directory name inside rest =>
    ⟨level, .directory, name⟩ :: (inside.lines (level + 1) ++ rest.lines level)

theorem render_eq_lines (level : Nat) (t : Tree) :
    t.render level = ((t.lines level).map TreeLine.content).flatMap (· ++ ['\n']) := by
  induction t generalizing level with
  | files names =>
      rw [render, lines, List.map_map, List.flatMap_map]
      rfl
  | directory name inside rest ihInside ihRest =>
      rw [render, lines, ihInside, ihRest, List.map_cons, List.map_append, List.flatMap_cons,
        List.flatMap_append, List.append_assoc]
      rfl

theorem isLine_of_mem_lines {level : Nat} {t : Tree} (h : t.All ShortName.IsLine) {l : TreeLine}
    (mem : l ∈ t.lines level) : l.name.IsLine := by
  induction t generalizing level with
  | files names =>
      obtain ⟨name, at_name, rfl⟩ := List.mem_map.mp mem
      exact h name at_name
  | directory name inside rest ihInside ihRest =>
      obtain ⟨here, within, after⟩ := h
      rcases List.mem_cons.mp mem with rfl | mem
      · exact here
      · rcases List.mem_append.mp mem with mem | mem
        · exact ihInside within mem
        · exact ihRest after mem

/-- The same directory with one more file in front of the others. -/
def withFile (name : ShortName) : Tree → Tree
  | files names => files (name :: names)
  | directory other inside rest => directory other inside (rest.withFile name)

/-- Takes up one more line in front of those that were read. At each level stands what was read of
the directory whose entries have this level; the line completes the deeper ones. -/
def takeUp (l : TreeLine) (read : Nat → Tree) (level : Nat) : Tree :=
  if level < l.level then read level
  else if level = l.level then
    match l.kind with
    | .directory => directory l.name (read (level + 1)) (read level)
    | .file => (read level).withFile l.name
  else files []

/-- The tree that was printed as this text. -/
def read? (text : List Char) : Option Tree := do
  let ls ← (pieces '\n' text).dropLast.mapM TreeLine.read?
  return ls.foldr takeUp (fun _ => files []) 0

/-- Above the level `read` stays, and below it nothing is left. -/
def readAt (level : Nat) (t : Tree) (read : Nat → Tree) (l : Nat) : Tree :=
  if l < level then read l else if l = level then t else files []

/-- By induction on the tree. What comes behind a directory is read before what it holds, and
stands at the level of the directory meanwhile. -/
theorem foldr_takeUp_lines (t : Tree) (level : Nat) {read : Nat → Tree}
    (complete : ∀ l, level ≤ l → read l = files []) :
    (t.lines level).foldr takeUp read = readAt level t read := by
  induction t generalizing level read with
  | files names =>
      induction names with
      | nil =>
          funext l
          simp only [lines, List.map_nil, List.foldr_nil, readAt]
          split
          · rfl
          · next above =>
              rw [complete l (Nat.le_of_not_lt above)]
              split <;> rfl
      | cons name names ih =>
          have before : (lines level (files (name :: names))).foldr takeUp read =
              takeUp ⟨level, .file, name⟩ ((lines level (files names)).foldr takeUp read) := rfl
          rw [before, ih]
          funext l
          simp only [takeUp, readAt]
          split
          · rfl
          · split
            · simp [withFile]
            · rfl
  | directory name inside rest ihInside ihRest =>
      have cleared : ∀ l, level + 1 ≤ l → readAt level rest read l = files [] := by
        intro l le
        rw [readAt, if_neg (by omega), if_neg (by omega)]
      rw [lines, List.foldr_cons, List.foldr_append, ihRest level complete,
        ihInside (level + 1) cleared]
      funext l
      simp only [takeUp, readAt]
      split
      · next above => rw [if_pos (by omega)]
      · split
        · next at_level => simp [at_level]
        · rfl

/-- Reading what was printed gives the tree back. -/
theorem read?_render {t : Tree} (h : t.All ShortName.IsLine) : read? (t.render 0) = some t := by
  have named : ∀ l ∈ t.lines 0, l.name.IsLine := fun l => isLine_of_mem_lines h
  have whole : ∀ c ∈ (t.lines 0).map TreeLine.content, '\n' ∉ c :=
    List.forall_mem_map.mpr fun l mem => TreeLine.newline_notMem_content (named l mem)
  rw [read?, render_eq_lines, pieces_lines whole, List.dropLast_concat,
    TreeLine.mapM_read?_content named, Option.bind_eq_bind, Option.bind_some,
    foldr_takeUp_lines t 0 fun _ _ => rfl]
  rfl

end Tree
end SaveContainer
