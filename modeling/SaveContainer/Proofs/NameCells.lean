import SaveContainer.Proofs.LossyReading
import SaveContainer.Proofs.Numbering

/-!
Names in their cells, as bytes and as text. A cell is compared with all its sixteen bytes, so that
names are told apart by their bytes rests on what stands behind a name. Main statements: a byte
string that can be a name has one cell, so names are equal, and found, exactly by their bytes; and
a name's text is well formed and gives the name back exactly when the name is text.
-/

namespace SaveContainer.ShortName

/-- The name holds these bytes, and zeros behind them. -/
structure Stores (n : ShortName) (bytes : List UInt8) : Prop where
  toBytes_eq : n.toBytes = bytes
  size_eq : n.size = bytes.length
  isEmpty_iff : n.isEmpty = true ↔ bytes = []
  cell_eq : n.cell.toList = bytes ++ List.replicate (16 - bytes.length) 0

/-- The name was made of bytes or of a text. -/
inductive Built : ShortName → Prop where
  | ofBytes {bytes : List UInt8} {n : ShortName} : ofBytes bytes = .ok n → Built n
  | ofText {text : String} {n : ShortName} : ofText text = .ok n → Built n

section Storing

variable {bytes : List UInt8} {m n : ShortName}

theorem cell_ofBytes (h : ofBytes bytes = .ok n) :
    n.cell.toList = bytes ++ List.replicate (16 - bytes.length) 0 := by
  have le : bytes.length ≤ 16 := (ofBytes_isOk_iff.mp ⟨n, h⟩).1
  unfold ofBytes at h
  split at h
  · cases h
  split at h
  · cases h
  obtain rfl := Except.ok.inj h
  apply List.ext_getElem
  · simp
    omega
  · intro i lt lt'
    by_cases inside : i < bytes.length
    · simp [inside]
    · simp [List.getElem_append, inside]

theorem stores_ofBytes (h : ofBytes bytes = .ok n) : Stores n bytes := by
  have eq := toBytes_ofBytes h
  have size : n.size = bytes.length := by rw [← eq, length_toBytes]
  refine ⟨eq, size, ?_, cell_ofBytes h⟩
  rw [isEmpty, size, beq_iff_eq, List.length_eq_zero_iff]

theorem Built.stores (h : Built n) : Stores n n.toBytes := by
  cases h with
  | ofBytes h =>
      have stores := stores_ofBytes h
      rwa [stores.toBytes_eq]
  | ofText h =>
      have stores := stores_ofBytes h
      rwa [stores.toBytes_eq]

/-- What is behind the bytes depends on their number only, so it tells no names apart. -/
theorem Built.cell_eq_iff (hm : Built m) (hn : Built n) :
    m.cell = n.cell ∧ m.size = n.size ↔ m.toBytes = n.toBytes := by
  constructor
  · rintro ⟨cell, size⟩
    rw [toBytes, toBytes, cell, size]
  · intro bytes
    refine ⟨Vector.toList_inj.mp ?_, ?_⟩
    · rw [hm.stores.cell_eq, hn.stores.cell_eq, bytes]
    · rw [hm.stores.size_eq, hn.stores.size_eq, bytes]

end Storing

theorem beq_iff_cell_eq {m n : ShortName} :
    (m == n) = true ↔ m.cell = n.cell ∧ m.size = n.size := by
  rw [beq_iff_eq]
  cases m; cases n
  simp

section Showing

variable {m n : ShortName}

theorem toList_display (n : ShortName) : n.display.toList = Utf8.lossy n.toBytes := by
  rw [display, String.toList_ofList]

theorem ofText_isOk_iff {text : String} :
    (∃ n, ofText text = .ok n) ↔ text.utf8ByteSize ≤ 16 ∧ '\x00' ∉ text.toList := by
  rw [← Utf8.length_encode, ← Utf8.zero_mem_encode_iff]
  exact ofBytes_isOk_iff

theorem display_ofText {text : String} (h : ofText text = .ok n) : n.display = text := by
  rw [display, toBytes_ofBytes h, Utf8.lossy_encode, String.ofList_toList]

/-- The text of a name gives the name back exactly when the name was text. -/
theorem ofText_display_iff : ofText n.display = .ok n ↔ Utf8.WellFormed n.toBytes := by
  rw [← Utf8.encode_lossy_eq_iff, ofText, toList_display]
  constructor
  · intro h
    exact (toBytes_ofBytes h).symm
  · intro h
    rw [h, ofBytes_toBytes]

theorem eq_of_display_eq (hm : Utf8.WellFormed m.toBytes) (hn : Utf8.WellFormed n.toBytes)
    (eq : m.display = n.display) : m = n := by
  have back : ofText m.display = .ok m := ofText_display_iff.mpr hm
  rw [eq, ofText_display_iff.mpr hn] at back
  exact (Except.ok.inj back).symm

end Showing

/-- A name is its bytes, however it was made: exactly the strings of at most sixteen bytes without
a zero are names and come back from them; comparing cells and looking names up compares these bytes;
and a name shows the text it was made of, or what is read of its bytes. -/
theorem faithful :
    (∀ bytes : List UInt8, ((∃ n, ofBytes bytes = .ok n) ↔ bytes.length ≤ 16 ∧ 0 ∉ bytes) ∧
      ∀ n, ofBytes bytes = .ok n → Stores n bytes) ∧
    (∀ m n : ShortName, Built m → Built n →
      ((m == n) = true ↔ m.cell = n.cell ∧ m.size = n.size) ∧
      ((m == n) = true ↔ m.toBytes = n.toBytes) ∧
      ∀ (c : Catalogue) (parent parent' : Ino) (kind : EntryKind),
        (c.insert parent m kind).2.number? parent' n =
          if parent = parent' ∧ m.toBytes = n.toBytes then some (c.insert parent m kind).1
          else c.number? parent' n) ∧
    (∀ text, ((∃ n, ofText text = .ok n) ↔ text.utf8ByteSize ≤ 16 ∧ '\x00' ∉ text.toList) ∧
      ∀ n, ofText text = .ok n → n.display = text ∧ ofText n.display = .ok n) ∧
    (∀ m n : ShortName, Utf8.WellFormed m.toBytes → Utf8.WellFormed n.toBytes →
      (m.display = n.display ↔ m = n)) ∧
    ∀ n : ShortName, (ofText n.display = .ok n ↔ Utf8.WellFormed n.toBytes) ∧
      Utf8.Reads n.toBytes n.display.toList ∧ Utf8.WellFormed (Utf8.encode n.display.toList) := by
  refine ⟨fun bytes => ⟨ofBytes_isOk_iff, fun n => stores_ofBytes⟩, ?equal, ?text, ?shown, ?read⟩
  case equal =>
    intro m n hm hn
    have same : (m == n) = true ↔ m.toBytes = n.toBytes :=
      beq_iff_cell_eq.trans (hm.cell_eq_iff hn)
    refine ⟨beq_iff_cell_eq, same, fun c parent parent' kind => ?_⟩
    rw [Catalogue.number?_insert]
    simp only [← same, beq_iff_eq]
    rfl
  case text =>
    refine fun text => ⟨ofText_isOk_iff, fun n h => ?_⟩
    have eq := display_ofText h
    exact ⟨eq, eq ▸ h⟩
  case shown =>
    intro m n hm hn
    exact ⟨eq_of_display_eq hm hn, fun eq => eq ▸ rfl⟩
  case read =>
    intro n
    rw [toList_display]
    exact ⟨ofText_display_iff, Utf8.reads_lossy n.toBytes, Utf8.wellFormed_encode _⟩

/-- Sixteen bytes end in the middle of a character, which becomes one replacement character. The
name shows as text that would not fit a name. -/
theorem faithful_cut :
    let bytes : List UInt8 := List.replicate 14 0x61 ++ [0xE2, 0x82]
    ∃ cut text, ofBytes bytes = .ok cut ∧ ofText "äöü" = .ok text ∧ Stores cut bytes ∧
      (cut == text) = false ∧ text.display = "äöü" ∧ ofText text.display = .ok text ∧
      cut.display = "aaaaaaaaaaaaaa\uFFFD" ∧ ofText cut.display ≠ .ok cut := by
  intro bytes
  obtain ⟨ofBytes_iff, eq_iff, ofText_iff, -, reads⟩ := faithful
  obtain ⟨cut, made⟩ := (ofBytes_iff bytes).1.mpr (by decide)
  obtain ⟨text, written⟩ := (ofText_iff "äöü").1.mpr (by decide)
  have stores := (ofBytes_iff bytes).2 cut made
  have stored := (ofBytes_iff _).2 text written
  obtain ⟨shown, back⟩ := (ofText_iff "äöü").2 text written
  have apart : ¬ (cut == text) = true := by
    rw [(eq_iff cut text (.ofBytes made) (.ofText written)).2.1, stores.toBytes_eq,
      stored.toBytes_eq]
    decide
  have read : cut.display.toList = Utf8.lossy bytes := by
    rw [← stores.toBytes_eq]
    exact (Utf8.reads_iff.mp (reads cut).2.1).symm
  have marked : Utf8.lossy bytes = "aaaaaaaaaaaaaa\uFFFD".toList := by decide
  refine ⟨cut, text, made, written, stores, by simpa using apart, shown, back, ?_, ?_⟩
  · rw [← String.toList_inj, read, marked]
  · rw [Ne, (reads cut).1, stores.toBytes_eq, ← Utf8.encode_lossy_eq_iff]
    decide

end SaveContainer.ShortName
