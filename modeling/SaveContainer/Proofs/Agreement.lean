import SaveContainer.Proofs.CatalogueView
import SaveContainer.Proofs.DiskPrinting
import SaveContainer.Proofs.PackedTree

/-!
A directory on disk and an archive that it was packed into. Main statement: both are printed as the
same text, as long as the members are in an order in which their first parts appear as they are
listed on disk and no path on disk is too long to be looked up.
-/

namespace SaveContainer

open Place Node

namespace Packed

section Order

variable {top : Node} {ms : List (List FileName × EntryKind)} (wellFormed : top.WellFormed)
  (packable : Packable top) (packs : Packs top ms)
include wellFormed packable packs

theorem findIdx_wanted {names : List FileName} {n : Node} (leads : top.Leads names n)
    (ne : names ≠ []) :
    (ms.map packed).findIdx (fun x => place names n ∈ wanted x) = ms.findIdx (appears names) := by
  have same : ∀ m ∈ ms, place names n ∈ wanted (packed m) ↔ appears names m := by
    intro m mem
    rw [place_mem_wanted_iff wellFormed packable packs mem leads, and_iff_right ne, appears,
      List.isPrefixOf_iff_prefix]
  rw [List.findIdx_map]
  refine Nat.le_antisymm (List.findIdx_le_findIdx fun m mem at_m => ?_)
    (List.findIdx_le_findIdx fun m mem at_m => ?_)
  · exact decide_eq_true ((same m mem).mpr at_m)
  · exact (same m mem).mp (of_decide_eq_true at_m)

section Directory

variable {names : List FileName} {es : List (FileName × Node)}
  (leads : top.Leads names (.directory es)) (kind : EntryKind)
include leads

-- The entries of a directory come on disk in the order in which the members first ask for them.
theorem pairwise_listed : ((listed (.directory es) kind).map fun e =>
    place (names ++ [e.1]) e.2).Pairwise fun x y =>
      (asked ms).idxOf x < (asked ms).idxOf y := by
  have ordered : (listed (.directory es) kind).Pairwise Precedes :=
    (ordered_sorted (leads.wellFormed wellFormed).distinct).filter _
  refine List.pairwise_map.mpr (ordered.imp_of_mem fun {a b} ha hb before => ?_)
  obtain ⟨ha, kind_a⟩ := mem_listed.mp ha
  obtain ⟨hb, kind_b⟩ := mem_listed.mp hb
  have first := packs.ordered names es leads a ha b hb (kind_a.trans kind_b.symm) before
  rw [← findIdx_wanted wellFormed packable packs (leads.entry ha) (by simp),
    ← findIdx_wanted wellFormed packable packs (leads.entry hb) (by simp)] at first
  exact idxOf_flatMap_lt first

theorem mem_asked_child_iff {x : Place} :
    x ∈ asked ms ∧ x.IsChild (texts names) kind ↔
      x ∈ (listed (.directory es) kind).map fun e => place (names ++ [e.1]) e.2 := by
  rw [mem_asked_iff wellFormed packable packs, List.mem_map]
  constructor
  · rintro ⟨⟨names', n, -, leads', rfl⟩, child⟩
    obtain ⟨kind_n, part, path⟩ := isChild_iff.mp child
    obtain ⟨front, last, rfl, same, at_last⟩ := List.map_eq_append_iff.mp path
    obtain ⟨name, rfl, -⟩ := List.map_eq_singleton_iff.mp at_last
    obtain ⟨k, first, second⟩ := leads_append_iff.mp leads'
    obtain rfl := (texts_inj (packable.showable _ _ first) (packable.showable _ _ leads)).mp same
    obtain rfl := leads.unique first wellFormed
    cases second with
    | inside mem below =>
        obtain rfl := below.eq_of_nil
        exact ⟨_, mem_listed.mpr ⟨mem, kind_n⟩, rfl⟩
  · rintro ⟨e, mem, rfl⟩
    obtain ⟨mem, kind_e⟩ := mem_listed.mp mem
    refine ⟨⟨_, e.2, by simp, leads.entry mem, rfl⟩, isChild_iff.mpr ⟨kind_e, Utf8.lossy e.1, ?_⟩⟩
    exact List.map_append

/-- What is settled in a directory is what is listed on disk, in the same order. -/
theorem filter_settled :
    ((asked ms).eraseDups.filter fun x => x.IsChild (texts names) kind) =
      (listed (.directory es) kind).map fun e => place (names ++ [e.1]) e.2 := by
  have settled := (pairwise_idxOf_eraseDups (asked ms)).filter fun x => x.IsChild (texts names) kind
  have onDisk := pairwise_listed wellFormed packable packs leads kind
  have nodup {l : List Place}
      (h : l.Pairwise fun x y => (asked ms).idxOf x < (asked ms).idxOf y) : l.Nodup :=
    h.imp fun lt same => Nat.ne_of_lt lt (congrArg (asked ms).idxOf same)
  refine List.Perm.eq_of_pairwise (fun _ _ _ _ before after => absurd after (Nat.lt_asymm before))
    settled onDisk ((List.perm_ext_iff_of_nodup (nodup settled) (nodup onDisk)).mpr fun x => ?_)
  rw [List.mem_filter, List.mem_eraseDups, decide_eq_true_eq]
  exact mem_asked_child_iff wellFormed packable packs leads kind

end Directory

end Order

section Catalogue

open Catalogue

variable {top : Node} {ms : List (List FileName × EntryKind)} (wellFormed : top.WellFormed)
  (packable : Packable top) (packs : Packs top ms) {c : Catalogue}
  (represents : Represents c (asked ms).eraseDups)

/-- The nodes of the catalogue stand for these entries of a directory. -/
structure StandsFor (top : Node) (ms : List (List FileName × EntryKind)) (names : List FileName)
    (es : List (FileName × Node)) (xs : List (Place × Ino)) : Prop where
  leads : ∀ e ∈ es, top.Leads (names ++ [e.1]) e.2
  numbers : ∀ x ∈ xs, x ∈ numbered (asked ms).eraseDups
  places : xs.map Prod.fst = es.map fun e => place (names ++ [e.1]) e.2

theorem StandsFor.tail {names : List FileName} {e : FileName × Node} {es : List (FileName × Node)}
    {xs : List (Place × Ino)} (h : StandsFor top ms names (e :: es) xs) :
    ∃ n rest, xs = (place (names ++ [e.1]) e.2, n) :: rest ∧
      (place (names ++ [e.1]) e.2, n) ∈ numbered (asked ms).eraseDups ∧
      StandsFor top ms names es rest := by
  obtain ⟨⟨_, n⟩, rest, rfl, same, others⟩ := List.map_eq_cons_iff.mp h.places
  cases same
  exact ⟨n, rest, rfl, h.numbers _ (List.mem_cons_self ..),
    fun e mem => h.leads e (List.mem_cons_of_mem _ mem),
    fun x mem => h.numbers x (List.mem_cons_of_mem _ mem), others⟩

include wellFormed packable packs in
theorem standsFor_inside {names : List FileName} {es : List (FileName × Node)}
    (leads : top.Leads names (.directory es)) (kind : EntryKind) :
    StandsFor top ms names (listed (.directory es) kind)
      (inside (asked ms).eraseDups (texts names) kind) where
  leads e mem := leads.entry (mem_listed.mp mem).1
  numbers x mem := (mem_inside.mp mem).1
  places := by
    rw [map_fst_inside]
    exact filter_settled wellFormed packable packs leads kind

include packable represents

theorem toBytes_nameOf_place {names : List FileName} {raw : FileName} {n : Node} {ino : Ino}
    (leads : top.Leads (names ++ [raw]) n) (at_ino : (place (names ++ [raw]) n, ino) ∈
      numbered (asked ms).eraseDups) : (c.nameOf ino).toBytes = raw := by
  have apart : texts (names ++ [raw]) = texts names ++ [Utf8.lossy raw] := List.map_append
  rw [place, apart] at at_ino
  rw [represents.toBytes_nameOf at_ino]
  exact encode_lossy_of_showable (packable.showable _ n leads raw (by simp))

theorem StandsFor.names {names : List FileName} {es : List (FileName × Node)}
    {xs : List (Place × Ino)} (h : StandsFor top ms names es xs) :
    (xs.map fun x => c.nameOf x.2).map ShortName.toBytes = es.map Prod.fst := by
  induction es generalizing xs with
  | nil =>
      obtain rfl := List.map_eq_nil_iff.mp h.places
      rfl
  | cons e es ih =>
      have leads := h.leads e (List.mem_cons_self ..)
      obtain ⟨n, rest, rfl, at_n, h⟩ := h.tail
      rw [List.map_cons, List.map_cons, List.map_cons, ih h,
        toBytes_nameOf_place packable represents leads at_n]

omit packable in
theorem view_place {names : List FileName} {es : List (FileName × Node)} {ino : Ino}
    (at_ino : (place names (.directory es), ino) ∈
      numbered (asked ms).eraseDups) :
    c.view.directories ino = some ((inside (asked ms).eraseDups
        (texts names) .directory).map fun x => (c.nameOf x.2, x.2)) ∧
      c.view.files ino = some ((inside (asked ms).eraseDups
        (texts names) .file).map fun x => c.nameOf x.2) := by
  simp only [Catalogue.view, represents.entries_eq at_ino, List.map_map]
  exact ⟨rfl, rfl⟩

include wellFormed packs

/-- The tree on disk is the one that the catalogue shows, by induction on how it is pictured. -/
theorem holds_of_pictured {dirs others : List (FileName × Node)} {t : Tree}
    (pictured : Pictured dirs others t) {names : List FileName} {xs : List (Place × Ino)}
    {files : List ShortName} (h : StandsFor top ms names dirs xs)
    (at_files : files.map ShortName.toBytes = others.map Prod.fst) :
    c.view.Holds (xs.map fun x => (c.nameOf x.2, x.2)) files t := by
  induction pictured generalizing names xs files with
  | files shown =>
      obtain rfl := List.map_eq_nil_iff.mp h.places
      have same := at_files.trans shown.symm
      rw [List.map_injective_iff.mpr (fun _ _ => ShortName.toBytes_injective) same]
      exact .files _
  | @directory raw name es dirs others rest others' inner more shown parts _ _ ihInside ihMore =>
      have leads : top.Leads (names ++ [raw]) (.directory es) := h.leads _ (List.mem_cons_self ..)
      obtain ⟨n, xs, rfl, at_n, h⟩ := h.tail
      have named := toBytes_nameOf_place packable represents leads at_n
      obtain rfl := ShortName.toBytes_injective (named.trans shown.symm)
      have below (kind : EntryKind) := standsFor_inside wellFormed packable packs leads kind
      obtain ⟨rfl, rfl⟩ := parts.unique (parts_listed (leads.wellFormed wellFormed).distinct)
      refine .directory ?_ ?_ (ihInside (below .directory) ((below .file).names packable represents))
        (ihMore h at_files)
      · exact (view_place represents at_n).1
      · exact (view_place represents at_n).2

theorem unfolds_of_shows {es : List (FileName × Node)} {t : Tree}
    (leads : top.Leads [] (.directory es)) (h : Shows (.directory es) t) :
    c.view.Unfolds rootIno t := by
  obtain ⟨dirs, others, parts, pictured⟩ := h
  have below (kind : EntryKind) := standsFor_inside wellFormed packable packs leads kind
  obtain ⟨rfl, rfl⟩ := parts.unique (parts_listed (leads.wellFormed wellFormed).distinct)
  have at_root : (place [] (.directory es), rootIno) ∈
      numbered (asked ms).eraseDups := List.mem_cons_self ..
  obtain ⟨directories, files⟩ := view_place represents at_root
  exact ⟨_, _, directories, files, holds_of_pictured wellFormed packable packs represents pictured
    (below .directory) ((below .file).names packable represents)⟩

end Catalogue

section Archive

variable {medium : Zip.Medium} {data : ByteArray}

theorem addAll_of_headers {listed : List Zip.Member}
    (headers : ∀ m ∈ listed, m.checkHeader medium data = .ok ()) (c : Catalogue) :
    (addAll medium data listed c).result = (Catalogue.addMembers (listed.map added) c).result ∧
      (addAll medium data listed c).state = (Catalogue.addMembers (listed.map added) c).state := by
  induction listed generalizing c with
  | nil => exact ⟨rfl, rfl⟩
  | cons m listed ih =>
      rw [List.forall_mem_cons] at headers
      have first : addAll medium data (m :: listed) c =
          (do Catalogue.addMember (added m).1 (added m).2
              addAll medium data listed : Act Catalogue Unit) c := by
        rw [addAll_cons, headers.1]
        rfl
      have second : Catalogue.addMembers ((m :: listed).map added) c =
          (do Catalogue.addMember (added m).1 (added m).2
              Catalogue.addMembers (listed.map added) : Act Catalogue Unit) c := rfl
      rw [first, second]
      cases one : (Catalogue.addMember (added m).1 (added m).2 c).result with
      | error e =>
          rw [Act.bind_of_error one, Act.bind_of_error one]
          exact ⟨rfl, rfl⟩
      | ok _ =>
          rw [Act.bind_of_ok one, Act.bind_of_ok one]
          exact ih headers.2 _

theorem ofBytes_of_members {σ : Type} {listed : Array Zip.Member}
    (members : Zip.members medium data = .ok listed)
    (headers : ∀ m ∈ listed.toList, m.checkHeader medium data = .ok ()) {c : Catalogue}
    (ok : Catalogue.ofMembers (listed.toList.map added) = .ok c) (s : σ) :
    (ofBytes medium data s).result = .ok c := by
  obtain ⟨result, state⟩ := addAll_of_headers headers Catalogue.empty
  have found : ofBytes medium data s =
      (do let c ← Act.reaching Catalogue.empty (addAll medium data listed.toList)
          Act.log (.indexed listed.size c.nodes.size)
          return c : Act σ Catalogue) s := by
    rw [ofBytes, members]
    rfl
  have reached : (Act.reaching Catalogue.empty (addAll medium data listed.toList) s).result =
      .ok c := by
    rw [Catalogue.ofMembers, ← result, ← state] at ok
    exact ok
  rw [found, Act.bind_of_ok reached]
  rfl

end Archive

theorem added_of_reported {top : Node} {ms : List (List FileName × EntryKind)}
    (wellFormed : top.WellFormed) (packable : Packable top) (packs : Packs top ms)
    {listed : List Zip.Member} (reported : listed.map Zip.Member.name = ms.map memberName) :
    listed.map added = ms.map packed := by
  let byName (name : String) : String × EntryKind := added ⟨name, 0⟩
  have archive : listed.map added = (listed.map Zip.Member.name).map byName := by
    rw [List.map_map]
    rfl
  rw [archive, reported, List.map_map]
  refine List.map_congr_left fun m mem => ?_
  obtain ⟨ne, n, leads, kind⟩ := packs.present m mem
  have directory := isDirectory_memberName ne (leads.isName wellFormed)
    (packable.showable m.1 n leads) 0 fun file =>
      packable.no_backslash m.1 n leads (kindOf_eq_file.mp (kind.trans file))
  change (memberName m, if Zip.Member.isDirectory ⟨memberName m, 0⟩ then _ else _) =
    (memberName m, m.2)
  cases at_m : m.2 with
  | directory => rw [if_pos (directory.mpr at_m)]
  | file =>
      rw [if_neg (mt directory.mp (by simp [at_m]))]

theorem Packable.fits {es : List (FileName × Node)} (packable : Packable (.directory es)) :
    Fits maxDepth (.directory es) where
  showable names inner leads _ e mem := packable.showable _ _ (leads.entry mem) e.1 (by simp)
  shallow names inner leads := Nat.ne_of_lt (Nat.lt_succ_of_le (packable.shallow names _ leads))

/-- An archive of a directory is accepted, and whatever has been listed or printed of the directory
before, both now have the same text. -/
theorem text_of_packed {disk : Disk} {p : Path} {es : List (FileName × Node)}
    (wellFormed : Extracted.OnDisk disk) (found : disk.node p = .ok (.directory es))
    (inReach : Extracted.InReach p (.directory es)) (packable : Packable (.directory es))
    {ms : List (List FileName × EntryKind)} (packs : Packs (.directory es) ms)
    {medium : Zip.Medium} {data : ByteArray} {listed : Array Zip.Member}
    (members : Zip.members medium data = .ok listed)
    (headers : ∀ m ∈ listed.toList, m.checkHeader medium data = .ok ())
    (reported : listed.toList.map Zip.Member.name = ms.map memberName) {σ τ : Type} (s : σ)
    (u : τ) :
    ∃ c t text, (ofBytes medium data s).result = .ok c ∧
      (Extracted.openRoot disk p ()).result = .ok t ∧
      ((hierarchy τ c).text u).result = .ok text ∧
      ∀ m, Extracted.Moment.Run (fun _ => True) (fun _ => True) (.start t) m →
        ((Extracted.hierarchy disk).text m.table).result = .ok text := by
  have top := Disk.of_node Node.hereditary_wellFormed wellFormed found
  have start : (Extracted.openRoot disk p ()).result = .ok (PathTable.ofRoot p) := by
    rw [Extracted.openRoot, found]
    rfl
  obtain ⟨c, ok⟩ := (Catalogue.ofMembers_ok_iff _).mpr (layout_packed top packable packs)
  obtain ⟨settled, all, represents, -⟩ := Catalogue.exists_settled_of_ofMembers ok
  obtain ⟨-, -, rfl⟩ := (settleAll_eq_some_iff _ _).mp all
  obtain ⟨tree, unfolds, low⟩ := (exists_unfolds_iff_fits maxDepth top).mpr packable.fits
  have shows' := shows_of_unfolds top unfolds rfl
  rw [← added_of_reported top packable packs reported] at ok
  refine ⟨c, _, _, ofBytes_of_members members headers ok s, start,
    represents.text_of_unfolds (unfolds_of_shows top packable packs represents (.here _) shows')
      low u, fun m run => ?_⟩
  rcases Extracted.text_decided wellFormed found inReach (Extracted.root_of_run start run) with
    ⟨-, tree', shows'', text⟩ | ⟨-, misfit⟩
  · rw [shows'.unique shows'']
    exact text
  · exact absurd packable.fits misfit

section Small

/-- A directory with a file and a directory that is empty. -/
def smallEntries : List (FileName × Node) :=
  [([0x61], .directory [([0x62], .file .empty)]), ([0x63], .directory [])]

def smallMembers : List (List FileName × EntryKind) :=
  [([[0x61], [0x62]], .file), ([[0x63]], .directory)]

theorem wellFormed_smallEntries : (Node.directory smallEntries).WellFormed := by
  have leaf : (Node.directory []).WellFormed := .directory (by decide) .nil (List.forall_mem_nil _)
  have inner : (Node.directory [([0x62], .file .empty)]).WellFormed :=
    .directory (by decide) (by decide) (List.forall_mem_singleton.mpr (.file _))
  refine .directory (by decide) (by decide) ?_
  simp only [smallEntries, List.forall_mem_cons]
  exact ⟨inner, leaf, List.forall_mem_nil _⟩

theorem leads_smallEntries {names : List FileName} {n : Node}
    (leads : (Node.directory smallEntries).Leads names n) :
    names = [] ∧ n = .directory smallEntries ∨
      names = [[0x61]] ∧ n = .directory [([0x62], .file .empty)] ∨
      names = [[0x61], [0x62]] ∧ n = .file .empty ∨ names = [[0x63]] ∧ n = .directory [] := by
  cases leads with
  | here => exact .inl ⟨rfl, rfl⟩
  | inside mem below =>
      simp only [smallEntries, List.mem_cons, List.not_mem_nil, or_false] at mem
      rcases mem with rfl | rfl
      · cases below with
        | here => exact .inr (.inl ⟨rfl, rfl⟩)
        | inside mem below =>
            obtain rfl := List.mem_singleton.mp mem
            cases below
            exact .inr (.inr (.inl ⟨rfl, rfl⟩))
      · cases below with
        | here => exact .inr (.inr (.inr ⟨rfl, rfl⟩))
        | inside none _ => cases none

theorem packable_smallEntries : Packable (.directory smallEntries) where
  showable names n leads := by
    rcases leads_smallEntries leads with ⟨rfl, -⟩ | ⟨rfl, -⟩ | ⟨rfl, -⟩ | ⟨rfl, -⟩ <;> decide
  shallow names n leads := by
    rcases leads_smallEntries leads with ⟨rfl, -⟩ | ⟨rfl, -⟩ | ⟨rfl, -⟩ | ⟨rfl, -⟩ <;> decide
  no_backslash names n leads file := by
    rcases leads_smallEntries leads with ⟨rfl, rfl⟩ | ⟨rfl, rfl⟩ | ⟨rfl, rfl⟩ | ⟨rfl, rfl⟩
    · cases file
    · cases file
    · decide
    · cases file

theorem packs_smallEntries : Packs (.directory smallEntries) smallMembers where
  file_once names n leads file := by
    rcases leads_smallEntries leads with ⟨rfl, rfl⟩ | ⟨rfl, rfl⟩ | ⟨rfl, rfl⟩ | ⟨rfl, rfl⟩
    · cases file
    · cases file
    · decide
    · cases file
  present := by
    have inner : (Node.directory smallEntries).Leads [[0x61]] (.directory [([0x62], .file .empty)]) :=
      .inside (List.mem_cons_self ..) (.here _)
    have outer : (Node.directory smallEntries).Leads [[0x63]] (.directory []) :=
      .inside (List.mem_cons_of_mem _ (List.mem_singleton_self _)) (.here _)
    simp only [smallMembers, List.forall_mem_cons]
    exact ⟨⟨by decide, _, inner.entry (List.mem_singleton_self _), rfl⟩,
      ⟨by decide, _, outer, rfl⟩, List.forall_mem_nil _⟩
  empty names ne leads := by
    rcases leads_smallEntries leads with ⟨rfl, -⟩ | ⟨-, same⟩ | ⟨-, same⟩ | ⟨rfl, -⟩
    · exact absurd rfl ne
    · cases same
    · cases same
    · decide
  ordered names es leads := by
    rcases leads_smallEntries leads with ⟨rfl, same⟩ | ⟨rfl, same⟩ | ⟨-, same⟩ | ⟨-, same⟩
    all_goals cases same
    · decide
    · decide
    · exact List.forall_mem_nil _

theorem members_smallArchive : ∃ listed : Array Zip.Member,
    Zip.members .memory smallArchive = .ok listed ∧
      (∀ m ∈ listed.toList, m.checkHeader .memory smallArchive = .ok ()) ∧
      listed.toList.map Zip.Member.name = smallMembers.map memberName := by
  have members : (Zip.members .memory smallArchive).toOption.map (fun listed =>
      (listed.toList.all fun m => (m.checkHeader .memory smallArchive).toOption.isSome,
        listed.toList.map Zip.Member.name)) = some (true, smallMembers.map memberName) := by
    decide +kernel
  cases found : Zip.members .memory smallArchive with
  | error e =>
      rw [found] at members
      cases members
  | ok listed =>
      rw [found] at members
      obtain ⟨headers, names⟩ := Prod.ext_iff.mp (Option.some.inj members)
      refine ⟨listed, rfl, fun m mem => ?_, names⟩
      have header := List.all_eq_true.mp headers m mem
      cases checked : m.checkHeader .memory smallArchive with
      | error e =>
          rw [checked] at header
          cases header
      | ok u => rfl

theorem text_of_smallMembers {c : Catalogue}
    (opened : ((ofBytes .memory smallArchive : Act Unit Catalogue) ()).result = .ok c) :
    ((hierarchy Unit c).text ()).result = .ok "+a\n -b\n+c\n" := by
  have text : (((ofBytes .memory smallArchive : Act Unit Catalogue) ()).result.toOption.bind
      fun c => ((hierarchy Unit c).text ()).result.toOption) = some "+a\n -b\n+c\n" := by
    decide +kernel
  rw [opened] at text
  change ((hierarchy Unit c).text ()).result.toOption = _ at text
  cases ended : ((hierarchy Unit c).text ()).result with
  | error e =>
      rw [ended] at text
      cases text
  | ok shown =>
      rw [ended] at text
      exact congrArg Except.ok (Option.some.inj text)

theorem text_of_packed_small :
    let p : Path := ⟨[0x63]⟩
    let disk := Extracted.diskWith smallEntries
    ∃ c t, ((ofBytes .memory smallArchive : Act Unit Catalogue) ()).result = .ok c ∧
      (Extracted.openRoot disk p ()).result = .ok t ∧
      ((hierarchy Unit c).text ()).result = .ok "+a\n -b\n+c\n" ∧
      ((Extracted.hierarchy disk).text t).result = .ok "+a\n -b\n+c\n" := by
  intro p disk
  have inReach : Extracted.InReach p (.directory smallEntries) := by
    intro names es leads
    rcases leads_smallEntries leads with ⟨rfl, -⟩ | ⟨rfl, -⟩ | ⟨rfl, -⟩ | ⟨rfl, -⟩ <;>
      decide +kernel
  obtain ⟨listed, members, headers, reported⟩ := members_smallArchive
  have wellFormed : Extracted.OnDisk disk := Extracted.wellFormed_diskWith wellFormed_smallEntries
  have found : disk.node p = .ok (.directory smallEntries) := rfl
  obtain ⟨c, t, text, opened, start, archive, onDisk⟩ := text_of_packed wellFormed found inReach
    packable_smallEntries packs_smallEntries members headers reported () ()
  have small := text_of_smallMembers opened
  cases archive.symm.trans small
  exact ⟨c, t, opened, start, archive, onDisk (.start t) .refl⟩

/-- A directory without a text, since nothing below it can be looked up. -/
theorem text_of_slashes {n : Nat} (pos : 0 < n) (short : n + 1 < Disk.pathLimit)
    (long : Disk.pathLimit ≤ n + 2) :
    ∃ e, ((Extracted.hierarchy (Extracted.diskWith smallEntries)).text
      (PathTable.ofRoot (Extracted.slashes n))).result = .error e := by
  let disk := Extracted.diskWith smallEntries
  let d : ExtractedDirectory := ⟨Extracted.slashes n, rootIno⟩
  let t := PathTable.ofRoot d.path
  have found : disk.node d.path = .ok (.directory smallEntries) :=
    Extracted.node_slashes pos short smallEntries
  obtain ⟨start, -, root⟩ := Extracted.opened_slashes pos short smallEntries
  have entries : disk.listing d.path = .ok smallEntries := by
    refine Disk.listing_eq_ok_iff.mpr ⟨_, found, ?_⟩
    exact (List.mergeSort_of_pairwise (List.pairwise_pair.mpr (by decide))).symm
  obtain ⟨e, rest, listed⟩ : ∃ e rest,
      (Extracted.list disk d .directory t).result = .ok (e :: rest) := by
    have run : Extracted.list disk d .directory t = _ := Extracted.list_run disk d .directory t
    rw [entries] at run
    have names := Extracted.names_of_takeEntries d
      (smallEntries.filter fun e => Extracted.kindOf e.2 = .directory) t
    have two : ((named? (smallEntries.filter fun e => Extracted.kindOf e.2 = .directory)).map
        (List.map Prod.fst)).map List.length = some 2 := by decide
    rw [← names] at two
    rw [run]
    dsimp only
    generalize (Extracted.takeEntries d _ t).result = taken at two ⊢
    match taken, two with
    | .ok (e :: rest), _ => exact ⟨e, rest, rfl⟩
  have opened : (Extracted.hierarchy disk).root t = _ := root
  obtain ⟨refused, -⟩ := Extracted.refused_slashes pos short wellFormed_smallEntries long listed
    (List.mem_cons_self ..)
  have listed' : ((Extracted.hierarchy disk).list d .directory
      ((Extracted.hierarchy disk).root t).state).result = .ok (e :: rest) := by
    rw [opened]
    exact listed
  have refused' : ((Extracted.hierarchy disk).subdirectory d e.name ((Extracted.hierarchy disk).list
      d .directory ((Extracted.hierarchy disk).root t).state).state).result =
        .error (.missing (.subdirectory e.name rootIno)) := by
    rw [opened]
    exact refused
  exact ⟨_, Hierarchy.text_of_unopened (congrArg Outcome.result opened) listed' refused'⟩

/-- Where the root path is just short enough to be looked up, there is no text of the directory, and
one of its archive. -/
theorem packed_beyond_pathLimit :
    let p := Extracted.slashes 4094
    let disk := Extracted.diskWith smallEntries
    Extracted.OnDisk disk ∧ disk.node p = .ok (.directory smallEntries) ∧
      Packable (.directory smallEntries) ∧ Packs (.directory smallEntries) smallMembers ∧
      (∃ listed : Array Zip.Member, Zip.members .memory smallArchive = .ok listed ∧
        (∀ m ∈ listed.toList, m.checkHeader .memory smallArchive = .ok ()) ∧
        listed.toList.map Zip.Member.name = smallMembers.map memberName) ∧
      (∃ t e, (Extracted.openRoot disk p ()).result = .ok t ∧
        ((Extracted.hierarchy disk).text t).result = .error e) ∧
      ∃ c, ((ofBytes .memory smallArchive : Act Unit Catalogue) ()).result = .ok c ∧
        ((hierarchy Unit c).text ()).result = .ok "+a\n -b\n+c\n" := by
  intro p disk
  have pos : 0 < 4094 := by decide
  have short : 4094 + 1 < Disk.pathLimit := by decide
  obtain ⟨start, -⟩ := Extracted.opened_slashes pos short smallEntries
  obtain ⟨e, failed⟩ := text_of_slashes pos short (by decide)
  refine ⟨Extracted.wellFormed_diskWith wellFormed_smallEntries,
    Extracted.node_slashes pos short smallEntries, packable_smallEntries,
    packs_smallEntries, members_smallArchive, ⟨_, e, start, failed⟩, ?_⟩
  cases opened : ((ofBytes .memory smallArchive : Act Unit Catalogue) ()).result with
  | ok c => exact ⟨c, rfl, text_of_smallMembers opened⟩
  | error e =>
      have : ((ofBytes .memory smallArchive : Act Unit Catalogue) ()).result.toOption.isSome := by
        decide +kernel
      simp [opened, Except.toOption] at this

end Small

end Packed

end SaveContainer
