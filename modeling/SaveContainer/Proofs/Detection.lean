import SaveContainer.Proofs.PackedPrinting
import SaveContainer.Proofs.SharedTables

/-!
Which kind of container a path is taken for. Main statement: a directory is opened as one opens a
directory, a file that begins as archives do is opened as one opens an archive, and everything else
is refused.
-/

namespace ByteArray

theorem toList_loop (data : ByteArray) (i : Nat) (front : List UInt8) :
    toList.loop data i front = front.reverse ++ data.data.toList.drop i := by
  induction i, front using toList.loop.induct data with
  | case1 i front lt ih =>
      have within : i < data.data.toList.length := lt
      have here : data.get! i = data.data.toList[i] := by simp [get!, getElem!_pos, lt]
      rw [toList.loop, if_pos lt, ih, List.drop_eq_getElem_cons within, here]
      simp
  | case2 i front beyond =>
      rw [toList.loop, if_neg beyond, List.drop_eq_nil_of_le (Nat.le_of_not_lt beyond),
        List.append_nil]

theorem toList_eq (data : ByteArray) : data.toList = data.data.toList :=
  toList_loop data 0 []

end ByteArray

namespace SaveContainer

/-- The act comes to what `m` comes to on the table at the place. -/
structure World.FromTable {α β : Type} (place : Nat) (f : β → α) (a : Act World α)
    (m : Disk → Act PathTable β) (w : World) : Prop where
  result : (a w).result = (m w.disk (w.table place)).result.map f
  disk : (a w).state.disk = w.disk
  size : (a w).state.tables.size = w.tables.size
  table : (a w).state.table place = (m w.disk (w.table place)).state

namespace World

variable {α β γ δ : Type} {place : Nat} {w : World}

theorem fromTable_onTable (given : place < w.tables.size) (m : Disk → Act PathTable α) :
    FromTable place id (onTable place m) m w where
  result := by
    change (m w.disk (w.table place)).result = (m w.disk (w.table place)).result.map id
    cases (m w.disk (w.table place)).result <;> rfl
  disk := rfl
  size := Array.size_setIfInBounds
  table := (table_putTable ..).trans (if_pos ⟨rfl, given⟩)

theorem FromTable.map {a : Act World β} {m : Disk → Act PathTable β}
    (h : FromTable place id a m w) (f : β → α) : FromTable place f (f <$> a) m w := by
  have run : (f <$> a) w = _ := Act.map_run a f w
  obtain ⟨result, disk, size, table⟩ := h
  refine ⟨?_, by rw [run]; exact disk, by rw [run]; exact size, by rw [run]; exact table⟩
  rw [run, result]
  cases (m w.disk (w.table place)).result <;> rfl

/-- So does one act after the other. -/
theorem FromTable.bind {f : β → α} {g : δ → γ} {a : Act World α} {m : Disk → Act PathTable β}
    {k : α → Act World γ} {l : β → Disk → Act PathTable δ} (first : FromTable place f a m w)
    (next : ∀ b w', w'.disk = w.disk → w'.tables.size = w.tables.size →
      FromTable place g (k (f b)) (l b) w') :
    FromTable place g (a >>= k) (fun disk => m disk >>= fun b => l b disk) w := by
  obtain ⟨result, disk, size, table⟩ := first
  cases ended : (m w.disk (w.table place)).result with
  | error e =>
      have failed : (a w).result = .error e := by
        rw [result, ended]
        rfl
      refine ⟨?_, ?_, ?_, ?_⟩ <;> simp only [Act.bind_of_error failed, Act.bind_of_error ended]
      · rfl
      · exact disk
      · exact size
      · exact table
  | ok b =>
      have done : (a w).result = .ok (f b) := by
        rw [result, ended]
        rfl
      have rest := next b (a w).state disk size
      refine ⟨?_, ?_, ?_, ?_⟩ <;> simp only [Act.bind_of_ok done, Act.bind_of_ok ended]
      · rw [rest.result, disk, table]
      · exact rest.disk.trans disk
      · exact rest.size.trans size
      · rw [rest.table, disk, table]

end World

namespace Save

/-- What is listed of the directory that the names lead to from the root. -/
def entriesBelow (s : Save) (names : List ShortName) (kind : EntryKind) :
    Act World (List Entry) := do
  let d ← names.foldlM (fun d name => d.subdirectory name) (← s.openDirectory rootIno)
  d.list kind

/-- Two containers that print and list the same, and give the same numbers to it. -/
structure ShowSame (w : World) (s s' : Save) : Prop where
  text : (s.text w).result = (s'.text w).result
  entries : ∀ names kind, (s.entriesBelow names kind w).result = (s'.entriesBelow names kind w).result

open World

variable {w : World} {place place' : Nat}

theorem fromTable_subdirectories (names : List ShortName) (d : ExtractedDirectory)
    (given : place < w.tables.size) :
    FromTable place (OpenDirectory.extracted place)
      (names.foldlM (fun d name => d.subdirectory name) (OpenDirectory.extracted place d))
      (fun disk => names.foldlM (Extracted.subdirectory disk) d) w := by
  induction names generalizing d w with
  | nil => exact ⟨rfl, rfl, rfl, rfl⟩
  | cons name names ih =>
      simp only [List.foldlM_cons]
      have first := fromTable_onTable given fun disk => Extracted.subdirectory disk d name
      exact (first.map _).bind fun d' w' _ size => ih d' (size ▸ given)

theorem fromTable_entriesBelow (names : List ShortName) (kind : EntryKind)
    (given : place < w.tables.size) :
    FromTable place id ((extracted place).entriesBelow names kind) (fun disk => do
      let d ← names.foldlM (Extracted.subdirectory disk) (← Extracted.openDirectory disk rootIno)
      Extracted.list disk d kind) w := by
  have first := fromTable_onTable given fun disk => Extracted.openDirectory disk rootIno
  refine (first.map (OpenDirectory.extracted place)).bind fun d w' _ size => ?_
  have given' : place < w'.tables.size := size ▸ given
  refine (fromTable_subdirectories names d given').bind fun d w'' _ size' => ?_
  exact fromTable_onTable (size' ▸ given') fun disk => Extracted.list disk d kind

/-- What a container shows comes from its table and the disk alone. -/
theorem showSame_of_table (given : place < w.tables.size) (given' : place' < w.tables.size)
    (same : w.table place = w.table place') : ShowSame w (extracted place) (extracted place') where
  text := congrArg (fun t => ((Extracted.hierarchy w.disk).text t).result) same
  entries names kind := by
    rw [(fromTable_entriesBelow names kind given).result,
      (fromTable_entriesBelow names kind given').result, same]

theorem ofDirectory_run (q : Path) (w : World) : ofDirectory q w =
    match w.disk.node q with
    | .error cause => ⟨.error (.cannotOpen q cause), w, []⟩
    | .ok (.directory _) => ⟨.ok (extracted w.tables.size),
        { w with tables := w.tables.push (.ofRoot q) }, [.event (.openedDirectorySave q)]⟩
    | .ok _ => ⟨.error (.unsupported q), w, []⟩ := by
  simp only [ofDirectory]
  rw [Act.get_bind, Extracted.openRoot]
  cases w.disk.node q with
  | error cause => rfl
  | ok n => cases n <;> rfl

theorem ofDirectory_of_directory {q : Path} {es : List (FileName × Node)}
    (found : w.disk.node q = .ok (.directory es)) : ofDirectory q w = ⟨.ok (extracted w.tables.size),
      { w with tables := w.tables.push (.ofRoot q) }, [.event (.openedDirectorySave q)]⟩ := by
  rw [ofDirectory_run, found]

theorem ofDirectory_ok_iff {q : Path} {s : Save} : (ofDirectory q w).result = .ok s ↔
    s = extracted w.tables.size ∧ ∃ es, w.disk.node q = .ok (.directory es) := by
  rw [ofDirectory_run]
  cases w.disk.node q with
  | error cause => simp
  | ok n => cases n <;> simp [eq_comm]

/-- Opened twice, the directory makes two containers that show the same. -/
theorem showSame_ofDirectory {q : Path} {es : List (FileName × Node)}
    (found : w.disk.node q = .ok (.directory es)) :
    let again := ofDirectory q (ofDirectory q w).state
    ∃ s, again.result = .ok s ∧ extracted w.tables.size ≠ s ∧
      ShowSame again.state (extracted w.tables.size) s := by
  intro again
  let w' : World := { w with tables := w.tables.push (.ofRoot q) }
  have size : w'.tables.size = w.tables.size + 1 := Array.size_push ..
  have first : (ofDirectory q w).state = w' :=
    congrArg Outcome.state (ofDirectory_of_directory found)
  have second : ofDirectory q w' = _ := ofDirectory_of_directory found
  have size' : (w'.tables.push (.ofRoot q)).size = w'.tables.size + 1 := Array.size_push ..
  have other : w.tables.size ≠ w'.tables.size := by omega
  rw [show again = ofDirectory q w' from first ▸ rfl, second]
  refine ⟨_, rfl, fun eq => other (extracted.inj eq), showSame_of_table ?_ ?_ ?_⟩
  · change w.tables.size < (w'.tables.push (.ofRoot q)).size
    omega
  · change w'.tables.size < (w'.tables.push (.ofRoot q)).size
    omega
  · rw [World.table_push, World.table_push, if_neg other, if_pos rfl, World.table_push, if_pos rfl]

theorem kind_of_ofArchive {q : Path} {s : Save} (opened : (ofArchive q w).result = .ok s) :
    s.kind = .archive := by
  have packed {m : Act World Catalogue} (ok : ((packed <$> m) w).result = .ok s) :
      s.kind = .archive := by
    obtain ⟨c, -, eq⟩ := Act.exists_of_bind_ok ok
    cases eq
    rfl
  rw [ofArchive, Act.get_bind] at opened
  cases found : w.disk.find .through q with
  | error cause =>
      rw [found] at opened
      cases opened
  | ok place =>
      simp only [found] at opened
      cases at_q : place.node with
      | directory es =>
          simp only [at_q] at opened
          cases opened
      | _ =>
          simp only [at_q] at opened
          exact packed opened

end Save

namespace Opener

open Save

/-- The bytes with which archives begin. -/
def Marked (data : ByteArray) : Prop :=
  memberMark <+: data.data.toList ∨ emptyMark <+: data.data.toList

instance (data : ByteArray) : Decidable (Marked data) :=
  inferInstanceAs (Decidable (_ ∨ _))

theorem looksPacked_iff (data : ByteArray) : looksPacked data ↔ Marked data := by
  have start : (data.extract 0 4).toList = data.data.toList.take 4 := by
    simp [ByteArray.toList_eq]
  have begins {mark : List UInt8} (size : mark.length = 4) :
      data.data.toList.take 4 = mark ↔ mark <+: data.data.toList := by
    rw [List.prefix_iff_eq_take, size, eq_comm]
  rw [looksPacked, Marked, start, Bool.or_eq_true, beq_iff_eq, beq_iff_eq, begins rfl, begins rfl]

variable (o : Opener) (p : Path) {w : World}

/-- The same with a line in the log of the container, if one was opened. -/
def told (q : Path) (out : Outcome World Save) : Outcome World Save :=
  { out with trace := out.trace ++
      match out.result with
      | .ok s => [.event (.openedSave q s.kind)]
      | .error _ => [] }

theorem told_run (q : Path) (opening : Act World Save) (w : World) :
    (do let s ← opening; Act.log (.openedSave q s.kind); return s : Act World Save) w =
      told q (opening w) := by
  cases opened : (opening w).result with
  | error e =>
      rw [Act.bind_of_error opened, told, opened, List.append_nil]
  | ok s =>
      rw [Act.bind_of_ok opened, told, opened]
      rfl

theorem openSave_run (w : World) :
    let q := o.resolve p
    o.openSave p w =
      match w.disk.node q with
      | .error cause => ⟨.error (.cannotOpen q cause), w, []⟩
      | .ok (.directory _) => told q (ofDirectory q w)
      | .ok (.file data) =>
        if looksPacked data then told q (ofArchive q w) else ⟨.error (.unsupported q), w, []⟩
      | .ok _ => ⟨.error (.unsupported q), w, []⟩ := by
  intro q
  rw [openSave, Act.get_bind]
  dsimp only
  cases w.disk.node q with
  | error cause => rfl
  | ok n =>
      cases n with
      | directory es => exact told_run q (ofDirectory q) w
      | file data =>
          dsimp only
          split
          · exact told_run q (ofArchive q) w
          · rfl
      | _ => rfl

section Kinds

variable {o p}

theorem openSave_of_directory {es : List (FileName × Node)}
    (found : w.disk.node (o.resolve p) = .ok (.directory es)) :
    o.openSave p w = told (o.resolve p) (ofDirectory (o.resolve p) w) := by
  rw [openSave_run, found]

theorem openSave_of_marked {data : ByteArray}
    (found : w.disk.node (o.resolve p) = .ok (.file data)) (marked : Marked data) :
    o.openSave p w = told (o.resolve p) (ofArchive (o.resolve p) w) := by
  rw [openSave_run, found]
  exact if_pos ((looksPacked_iff data).mpr marked)

theorem openSave_of_other
    (other : ∀ es, w.disk.node (o.resolve p) ≠ .ok (.directory es))
    (unmarked : ∀ data, w.disk.node (o.resolve p) = .ok (.file data) → ¬Marked data) :
    o.openSave p w = match w.disk.node (o.resolve p) with
      | .error cause => ⟨.error (.cannotOpen (o.resolve p) cause), w, []⟩
      | .ok _ => ⟨.error (.unsupported (o.resolve p)), w, []⟩ := by
  rw [openSave_run]
  cases found : w.disk.node (o.resolve p) with
  | error cause => rfl
  | ok n =>
      cases n with
      | directory es => exact absurd found (other es)
      | file data => exact if_neg (mt (looksPacked_iff data).mp (unmarked data found))
      | _ => rfl

theorem openSave_directory_iff : (∃ s, (o.openSave p w).result = .ok s ∧ s.kind = .directory) ↔
    ∃ es, w.disk.node (o.resolve p) = .ok (.directory es) := by
  constructor
  · rintro ⟨s, ok, kind⟩
    by_contra other
    rw [not_exists] at other
    by_cases packed : ∃ data, w.disk.node (o.resolve p) = .ok (.file data) ∧ Marked data
    · obtain ⟨data, found, marked⟩ := packed
      rw [openSave_of_marked found marked] at ok
      cases kind.symm.trans (kind_of_ofArchive ok)
    · rw [openSave_of_other other fun data found marked => packed ⟨data, found, marked⟩] at ok
      split at ok <;> cases ok
  · rintro ⟨es, found⟩
    rw [openSave_of_directory found]
    exact ⟨_, ofDirectory_ok_iff.mpr ⟨rfl, es, found⟩, rfl⟩

end Kinds

/-- Every path is taken for a directory, for an archive or for neither, and opened accordingly: as
the direct openers do it, or not at all. -/
theorem openSave_agrees (o : Opener) (p : Path) (w : World) :
    let q := o.resolve p
    let opened := o.openSave p w
    let direct := Save.ofDirectory q w
    let packed := Save.ofArchive q w
    ((∃ s, opened.result = .ok s ∧ s.kind = .directory) ↔ ∃ s, direct.result = .ok s) ∧
    (∀ s, direct.result = .ok s → opened = told q direct ∧
      let again := Save.ofDirectory q opened.state
      ∃ s', again.result = .ok s' ∧ s ≠ s' ∧ Save.ShowSame again.state s s') ∧
    (∀ data, w.disk.node q = .ok (.file data) → Marked data → opened = told q packed ∧
      ∀ s, packed.result = .ok s → s.kind = .archive) ∧
    ((∀ s, direct.result ≠ .ok s) →
      (∀ data, w.disk.node q = .ok (.file data) → ¬Marked data) →
      opened = match w.disk.node q with
        | .error cause => ⟨.error (.cannotOpen q cause), w, []⟩
        | .ok _ => ⟨.error (.unsupported q), w, []⟩) := by
  intro q opened direct packed
  refine ⟨?_, fun s ok => ?_, fun data found marked => ?_, fun other => ?_⟩
  · refine openSave_directory_iff.trans ⟨fun ⟨es, found⟩ => ?_, fun ⟨s, ok⟩ => ?_⟩
    · exact ⟨_, ofDirectory_ok_iff.mpr ⟨rfl, es, found⟩⟩
    · exact (ofDirectory_ok_iff.mp ok).2
  · obtain ⟨rfl, es, found⟩ := ofDirectory_ok_iff.mp ok
    have same : opened = told q direct := openSave_of_directory found
    rw [same]
    exact ⟨rfl, showSame_ofDirectory found⟩
  · exact ⟨openSave_of_marked found marked, fun s => kind_of_ofArchive⟩
  · exact openSave_of_other fun es found => other _ (ofDirectory_ok_iff.mpr ⟨rfl, es, found⟩)

/-- Below the base directory: a directory, an archive, the same archive behind one more byte, and
nothing. -/
theorem openSave_agrees_withBase :
    let behind : ByteArray := ⟨#[0] ++ Packed.smallArchive.data⟩
    let disk : Disk := ⟨.directory [([0x61], .directory []), ([0x62], .file Packed.smallArchive),
      ([0x63], .file behind)], []⟩
    let w : World := ⟨disk, #[]⟩
    let o : Opener := ⟨some ⟨[Path.slash]⟩⟩
    (o.openSave ⟨[0x61]⟩ w).result = .ok (.extracted 0) ∧
      (∃ c, (Save.ofArchive ⟨[Path.slash, 0x62]⟩ w).result = .ok (.packed c) ∧
        (o.openSave ⟨[0x62]⟩ w).result = .ok (.packed c)) ∧
      (∃ s, (Save.ofArchive ⟨[Path.slash, 0x63]⟩ w).result = .ok s) ∧
      (o.openSave ⟨[0x63]⟩ w).result = .error (.unsupported ⟨[Path.slash, 0x63]⟩) ∧
      (o.openSave ⟨[0x64]⟩ w).result = .error (.cannotOpen ⟨[Path.slash, 0x64]⟩ .notFound) := by
  intro behind disk w o
  obtain ⟨-, direct, -, -⟩ := openSave_agrees o ⟨[0x61]⟩ w
  obtain ⟨-, -, packed, -⟩ := openSave_agrees o ⟨[0x62]⟩ w
  obtain ⟨-, -, -, leading⟩ := openSave_agrees o ⟨[0x63]⟩ w
  obtain ⟨-, -, -, missing⟩ := openSave_agrees o ⟨[0x64]⟩ w
  have marked : Marked Packed.smallArchive := by decide +kernel
  have unmarked : ¬Marked behind := by decide +kernel
  have one := (direct (.extracted 0) rfl).1
  have two := (packed Packed.smallArchive rfl marked).1
  have three := leading nofun fun data found => Node.file.inj (Except.ok.inj found) ▸ unmarked
  have four := missing nofun nofun
  have opens {q : Path} (some : (Save.ofArchive q w).result.toOption.isSome) :
      ∃ c, (Save.ofArchive q w).result = .ok (.packed c) := by
    cases ended : (Save.ofArchive q w).result with
    | error e =>
        rw [ended] at some
        cases some
    | ok s =>
        cases s with
        | extracted place => cases kind_of_ofArchive ended
        | packed c => exact ⟨c, rfl⟩
  obtain ⟨c, ok⟩ := opens (q := ⟨[Path.slash, 0x62]⟩) (by decide +kernel)
  obtain ⟨c', ok'⟩ := opens (q := ⟨[Path.slash, 0x63]⟩) (by decide +kernel)
  have resolved : o.resolve ⟨[0x62]⟩ = ⟨[Path.slash, 0x62]⟩ := rfl
  rw [resolved] at two
  refine ⟨congrArg Outcome.result one, ⟨c, ok, ?_⟩, ⟨.packed c', ok'⟩,
    congrArg Outcome.result three, congrArg Outcome.result four⟩
  rw [two, told, ok]

end Opener

end SaveContainer
