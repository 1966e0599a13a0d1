import SaveContainer.Proofs.DiskTree
import SaveContainer.Proofs.PackedPrinting

/-!
Directories packed into archives: every file has one member, a directory may have members of its
own and needs one only if it is empty. Main statement: the members describe exactly the tree, so
they are laid out well and settle the places of its entries and no others.
-/

namespace SaveContainer

open Place Node

namespace Node

variable {names : List FileName} {name : FileName}

theorem encode_lossy_of_showable (h : Showable name) : Utf8.encode (Utf8.lossy name) = name := by
  obtain ⟨text, decoded⟩ := Option.isSome_iff_exists.mp h.1
  rw [← Utf8.decode?_eq_some_iff.mp decoded, Utf8.lossy_encode]

/-- The names on the way to an entry as text. -/
def texts (names : List FileName) : List (List Char) :=
  names.map Utf8.lossy

theorem encode_texts (h : ∀ name ∈ names, Showable name) :
    (texts names).map Utf8.encode = names := by
  rw [texts, List.map_map]
  exact (List.map_congr_left fun name mem => encode_lossy_of_showable (h name mem)).trans
    (List.map_id _)

theorem texts_prefix_iff {names' : List FileName} (h : ∀ name ∈ names, Showable name)
    (h' : ∀ name ∈ names', Showable name) : texts names <+: texts names' ↔ names <+: names' := by
  constructor
  · intro start
    have encoded := start.map Utf8.encode
    rwa [encode_texts h, encode_texts h'] at encoded
  · exact fun start => start.map Utf8.lossy

theorem texts_inj {names' : List FileName} (h : ∀ name ∈ names, Showable name)
    (h' : ∀ name ∈ names', Showable name) : texts names = texts names' ↔ names = names' := by
  constructor
  · intro same
    rw [← encode_texts h, same, encode_texts h']
  · exact congrArg texts

section Text

variable (isName : Path.IsName name) (showable : Showable name)
include isName showable

theorem slash_notMem_lossy : '/' ∉ Utf8.lossy name := by
  intro mem
  have slash : Path.slash ∈ Utf8.encode (Utf8.lossy name) :=
    List.mem_flatMap.mpr ⟨'/', mem, by decide⟩
  rw [encode_lossy_of_showable showable] at slash
  exact isName.slash_notMem slash

theorem lossy_ne_nil : Utf8.lossy name ≠ [] := by
  intro empty
  have bytes := encode_lossy_of_showable showable
  rw [empty] at bytes
  exact isName.ne_nil bytes.symm

theorem soundPart_lossy : SoundPart (Utf8.lossy name) := by
  have bytes := encode_lossy_of_showable showable
  refine ⟨lossy_ne_nil isName showable, fun dot => ?_, fun dots => ?_, ?_, ?_⟩
  · rw [dot] at bytes
    exact isName.ne_dot bytes.symm
  · rw [dots] at bytes
    exact isName.ne_dotDot bytes.symm
  · rw [bytes]
    exact showable.2
  · rw [bytes]
    exact isName.zero_notMem

end Text

end Node

namespace Packed

/-- The name of the member for an entry. That for a directory ends in a slash. -/
def memberName (m : List FileName × EntryKind) : String :=
  String.ofList (['/'].intercalate (texts m.1) ++ if m.2 = .directory then ['/'] else [])

/-- The entry is the one that the member is for, or on the way to it. -/
def appears (names : List FileName) (m : List FileName × EntryKind) : Bool :=
  names.isPrefixOf m.1

/-- A tree that an archive can hold. -/
structure Packable (top : Node) : Prop where
  showable : ∀ names n, top.Leads names n → ∀ name ∈ names, Showable name
  shallow : ∀ names n, top.Leads names n → names.length ≤ maxDepth
  no_backslash : ∀ names n, top.Leads names n → n.isDirectory = false →
    ∀ name ∈ names.getLast?, (Utf8.lossy name).getLast? ≠ some '\\'

/-- The members of an archive of the tree, in an order that its listings can be told by. -/
structure Packs (top : Node) (ms : List (List FileName × EntryKind)) : Prop where
  file_once : ∀ names n, top.Leads names n → n.isDirectory = false → ms.count (names, .file) = 1
  present : ∀ m ∈ ms, m.1 ≠ [] ∧ ∃ n, top.Leads m.1 n ∧ Extracted.kindOf n = m.2
  empty : ∀ names, names ≠ [] → top.Leads names (.directory []) → (names, .directory) ∈ ms
  ordered : ∀ names es, top.Leads names (.directory es) → ∀ a ∈ es, ∀ b ∈ es,
    Extracted.kindOf a.2 = Extracted.kindOf b.2 → Precedes a b →
      ms.findIdx (appears (names ++ [a.1])) < ms.findIdx (appears (names ++ [b.1]))

theorem getLast?_intercalate {α : Type} (sep : List α) (l : List (List α)) {x : List α}
    (ne : x ≠ []) : (sep.intercalate (l ++ [x])).getLast? = x.getLast? := by
  induction l with
  | nil => rw [List.nil_append, List.intercalate_singleton]
  | cons y l ih =>
      have more : l ++ [x] ≠ [] := by simp
      rw [List.cons_append, List.intercalate_cons_of_ne_nil more, List.getLast?_append, ih,
        List.getLast?_eq_some_getLast ne]
      rfl

/-- The slash at the end of a directory's member is no part of its path. -/
theorem pathOf_memberName_eq (m : List FileName × EntryKind) :
    Catalogue.pathOf (memberName m, m.2) = (['/'].intercalate (texts m.1)).splitOn '/' := by
  obtain ⟨names, kind⟩ := m
  cases kind with
  | directory => exact Catalogue.pathOf_directory_concat _
  | file => simp [memberName, Catalogue.pathOf]

section Path

variable {m : List FileName × EntryKind} (ne : m.1 ≠ []) (isName : ∀ name ∈ m.1, Path.IsName name)
  (showable : ∀ name ∈ m.1, Showable name)
include ne isName showable

theorem splitOn_texts : (['/'].intercalate (texts m.1)).splitOn '/' = texts m.1 := by
  refine List.splitOn_intercalate '/' ?_ (mt List.map_eq_nil_iff.mp ne)
  intro text mem
  obtain ⟨name, at_name, rfl⟩ := List.mem_map.mp mem
  exact slash_notMem_lossy (isName name at_name) (showable name at_name)

theorem pathOf_memberName : Catalogue.pathOf (memberName m, m.2) = texts m.1 := by
  rw [pathOf_memberName_eq, splitOn_texts ne isName showable]

theorem isDirectory_memberName (place : Nat)
    (no_backslash : m.2 = .file →
      ∀ name ∈ m.1.getLast?, (Utf8.lossy name).getLast? ≠ some '\\') :
    Zip.Member.isDirectory ⟨memberName m, place⟩ ↔ m.2 = .directory := by
  obtain ⟨names, kind⟩ := m
  unfold Zip.Member.isDirectory memberName
  cases kind with
  | directory => simp
  | file =>
      obtain ⟨name, last⟩ := Option.ne_none_iff_exists'.mp (mt List.getLast?_eq_none_iff.mp ne)
      obtain ⟨front, rfl⟩ := List.getLast?_eq_some_iff.mp last
      have mem : name ∈ front ++ [name] := List.mem_append_right front (List.mem_singleton_self _)
      have text := lossy_ne_nil (isName name mem) (showable name mem)
      have ends := getLast?_intercalate ['/'] (texts front) text
      obtain ⟨c, at_end⟩ := Option.ne_none_iff_exists'.mp (mt List.getLast?_eq_none_iff.mp text)
      have slash : c ≠ '/' := by
        rintro rfl
        exact slash_notMem_lossy (isName name mem) (showable name mem) (List.mem_of_getLast? at_end)
      have backslash : c ≠ '\\' := by
        rintro rfl
        exact no_backslash rfl name last at_end
      have apart : texts (front ++ [name]) = texts front ++ [Utf8.lossy name] := List.map_append
      simp [apart, ends, at_end, slash, backslash]

end Path

/-- The member as a catalogue takes it up. -/
def packed (m : List FileName × EntryKind) : String × EntryKind :=
  (memberName m, m.2)

/-- All places that the members ask for, in order. -/
def asked (ms : List (List FileName × EntryKind)) : List Place :=
  (ms.map packed).flatMap wanted

/-- Where the catalogue has an entry. -/
def place (names : List FileName) (n : Node) : Place :=
  ⟨texts names, Extracted.kindOf n⟩

section Tree

variable {top : Node} {ms : List (List FileName × EntryKind)}

theorem exists_member_of_file (packs : Packs top ms) {names : List FileName} {n : Node}
    (leads : top.Leads names n) (other : n.isDirectory = false) : ∃ m ∈ ms, names <+: m.1 := by
  have once := packs.file_once names n leads other
  exact ⟨_, List.count_pos_iff.mp (once ▸ Nat.one_pos), List.prefix_rfl⟩

-- By induction on the entry: a directory that is not empty is on the way to what it has.
theorem exists_member (wellFormed : top.WellFormed) (packs : Packs top ms) {names : List FileName}
    {n : Node} (leads : top.Leads names n) (ne : names ≠ []) : ∃ m ∈ ms, names <+: m.1 := by
  have here := leads.wellFormed wellFormed
  induction here generalizing names with
  | file data => exact exists_member_of_file packs leads rfl
  | link target => exact exists_member_of_file packs leads rfl
  | device => exact exists_member_of_file packs leads rfl
  | @directory es isName distinct inner ih =>
      cases es with
      | nil => exact ⟨_, packs.empty names ne leads, List.prefix_rfl⟩
      | cons e es =>
          have first : e ∈ e :: es := List.mem_cons_self ..
          obtain ⟨m, mem, start⟩ := ih e first (leads.entry first) (by simp)
          exact ⟨m, mem, (List.prefix_append names [e.1]).trans start⟩

theorem nodup_files (packs : Packs top ms) : (ms.filter fun m => m.2 = .file).Nodup := by
  refine List.nodup_iff_count_le_one.mpr fun m => ?_
  by_cases mem : m ∈ ms.filter fun m => m.2 = .file
  · obtain ⟨mem, file⟩ := List.mem_filter.mp mem
    obtain ⟨-, n, leads, kind⟩ := packs.present m mem
    have all : (ms.filter fun m => m.2 = .file).count m = ms.count m := List.count_filter file
    rw [decide_eq_true_eq] at file
    have once := packs.file_once m.1 n leads (kindOf_eq_file.mp (kind.trans file))
    rw [← file] at once
    exact Nat.le_of_eq (all.trans once)
  · rw [List.count_eq_zero_of_not_mem mem]
    exact Nat.zero_le 1

variable (wellFormed : top.WellFormed) (packable : Packable top) (packs : Packs top ms)
include wellFormed packable packs

theorem pathOf_packed {m : List FileName × EntryKind} (mem : m ∈ ms) :
    Catalogue.pathOf (packed m) = texts m.1 := by
  obtain ⟨ne, n, leads, -⟩ := packs.present m mem
  exact pathOf_memberName ne (leads.isName wellFormed) (packable.showable m.1 n leads)

/-- A member asks for its entry and for the directories on the way to it. -/
theorem place_mem_wanted_iff {m : List FileName × EntryKind} (mem : m ∈ ms)
    {names : List FileName} {n : Node} (leads : top.Leads names n) :
    place names n ∈ wanted (packed m) ↔ names ≠ [] ∧ names <+: m.1 := by
  obtain ⟨ne, n', leads', kind⟩ := packs.present m mem
  have shown := packable.showable names n leads
  have shown' := packable.showable m.1 n' leads'
  rw [mem_wanted, pathOf_packed wellFormed packable packs mem]
  simp only [place, packed, texts_prefix_iff shown shown', texts_inj shown shown', ne_eq]
  rw [texts, List.map_eq_nil_iff]
  refine and_congr_right fun _ => and_iff_left_of_imp fun start => ?_
  split
  · next same =>
      subst same
      rw [leads.unique leads' wellFormed, kind]
  · next differ =>
      obtain ⟨more, eq⟩ := start
      rw [← eq] at leads'
      obtain ⟨k, first, second⟩ := leads_append_iff.mp leads'
      obtain rfl := leads.unique first wellFormed
      cases second with
      | here => exact absurd (by simpa using eq) differ
      | inside => rfl

theorem mem_asked_iff {x : Place} : x ∈ asked ms ↔
    ∃ names n, names ≠ [] ∧ top.Leads names n ∧ x = place names n := by
  rw [asked, List.flatMap_map, List.mem_flatMap]
  constructor
  · rintro ⟨m, mem, hx⟩
    obtain ⟨ne, start, kind⟩ := mem_wanted.mp hx
    rw [pathOf_packed wellFormed packable packs mem] at start
    obtain ⟨names, before, path⟩ := List.prefix_map_iff.mp start
    obtain ⟨-, n, leads, -⟩ := packs.present m mem
    obtain ⟨more, eq⟩ := before
    rw [← eq] at leads
    obtain ⟨k, first, -⟩ := leads_append_iff.mp leads
    have nonempty : names ≠ [] := by
      rintro rfl
      exact ne path
    have same := (place_mem_wanted_iff wellFormed packable packs mem first).mpr
      ⟨nonempty, more, eq⟩
    obtain ⟨-, -, kind'⟩ := mem_wanted.mp same
    obtain ⟨path', kind''⟩ := x
    change path' = texts names at path
    subst path
    exact ⟨names, k, nonempty, first, congrArg (Place.mk (texts names)) (kind.trans kind'.symm)⟩
  · rintro ⟨names, n, ne, leads, rfl⟩
    obtain ⟨m, mem, start⟩ := exists_member wellFormed packs leads ne
    exact ⟨m, mem, (place_mem_wanted_iff wellFormed packable packs mem leads).mpr ⟨ne, start⟩⟩

theorem eq_of_starts_with_file {f m : List FileName × EntryKind} (hf : f ∈ ms) (hm : m ∈ ms)
    (file : f.2 = .file) (start : texts f.1 <+: texts m.1) : m = f := by
  obtain ⟨-, n, leads, kind⟩ := packs.present f hf
  obtain ⟨-, n', leads', kind'⟩ := packs.present m hm
  obtain ⟨more, eq⟩ := (texts_prefix_iff (packable.showable f.1 n leads)
    (packable.showable m.1 n' leads')).mp start
  rw [← eq] at leads'
  obtain ⟨k, first, second⟩ := leads_append_iff.mp leads'
  obtain rfl := leads.unique first wellFormed
  cases second with
  | here =>
      rw [List.append_nil] at eq
      exact Prod.ext eq.symm (kind'.symm.trans kind)
  | inside => cases kind.trans file

theorem layout_packed : Catalogue.Layout (ms.map packed) where
  short := by
    refine List.forall_mem_map.mpr fun m mem => ?_
    obtain ⟨-, n, leads, -⟩ := packs.present m mem
    rw [pathOf_packed wellFormed packable packs mem, texts, List.length_map]
    exact packable.shallow m.1 n leads
  sound := by
    refine List.forall_mem_map.mpr fun m mem => ?_
    obtain ⟨-, n, leads, -⟩ := packs.present m mem
    rw [pathOf_packed wellFormed packable packs mem]
    refine List.forall_mem_map.mpr fun name at_name => ?_
    exact soundPart_lossy (leads.isName wellFormed name at_name)
      (packable.showable m.1 n leads name at_name)
  files_differ := by
    have differ := List.pairwise_filter.mp (nodup_files packs)
    refine List.pairwise_map.mpr (differ.imp_of_mem fun hf hm apart file file' same => ?_)
    rw [pathOf_packed wellFormed packable packs hf, pathOf_packed wellFormed packable packs hm]
      at same
    refine apart (decide_eq_true file) (decide_eq_true file') ?_
    exact (eq_of_starts_with_file wellFormed packable packs hf hm file (same ▸ List.prefix_rfl)).symm
  no_directory_at_file := by
    refine List.forall_mem_map.mpr fun f hf => List.forall_mem_map.mpr fun d hd file directory => ?_
    rw [pathOf_packed wellFormed packable packs hf, pathOf_packed wellFormed packable packs hd]
    intro same
    obtain rfl := eq_of_starts_with_file wellFormed packable packs hf hd file (same ▸ List.prefix_rfl)
    cases file.symm.trans directory
  nothing_below_file := by
    refine List.forall_mem_map.mpr fun f hf => List.forall_mem_map.mpr fun m hm file => ?_
    rw [pathOf_packed wellFormed packable packs hf, pathOf_packed wellFormed packable packs hm]
    rintro ⟨start, ne⟩
    obtain rfl := eq_of_starts_with_file wellFormed packable packs hf hm file start
    exact ne rfl

end Tree

end Packed

end SaveContainer
