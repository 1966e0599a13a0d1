import SaveContainer.Text.Utf8
import Mathlib.Data.List.Forall2

/-!
Which bytes are UTF-8, by a table of ranges that does not mention how characters are written. Main
statements: the byte sequences of the table are exactly the written characters, so the well-formed
bytes are exactly the written texts, and these are the bytes that reading and writing keeps.
-/

namespace SaveContainer.Utf8

/-- Where the last bytes of a character lie. -/
def tailRange : Nat × Nat := (0x80, 0xBF)

/-- The ranges of the bytes of a character, one row for each kind. After 0xE0 and 0xF0 the second
byte is not so small that the number would fit a shorter form; after 0xED it leaves out the
surrogates and after 0xF4 what lies above U+10FFFF. -/
def rows : List (List (Nat × Nat)) :=
  [[(0x00, 0x7F)],
   [(0xC2, 0xDF), tailRange],
   [(0xE0, 0xE0), (0xA0, 0xBF), tailRange],
   [(0xE1, 0xEC), tailRange, tailRange],
   [(0xED, 0xED), (0x80, 0x9F), tailRange],
   [(0xEE, 0xEF), tailRange, tailRange],
   [(0xF0, 0xF0), (0x90, 0xBF), tailRange, tailRange],
   [(0xF1, 0xF3), tailRange, tailRange, tailRange],
   [(0xF4, 0xF4), (0x80, 0x8F), tailRange, tailRange]]

def Fits (row : List (Nat × Nat)) (bytes : List UInt8) : Prop :=
  List.Forall₂ (fun range b => range.1 ≤ b.toNat ∧ b.toNat ≤ range.2) row bytes

instance (row : List (Nat × Nat)) (bytes : List UInt8) : Decidable (Fits row bytes) :=
  inferInstanceAs (Decidable (List.Forall₂ _ row bytes))

/-- The bytes are one character. -/
def IsCharacter (bytes : List UInt8) : Prop :=
  ∃ row ∈ rows, Fits row bytes

instance (bytes : List UInt8) : Decidable (IsCharacter bytes) :=
  inferInstanceAs (Decidable (∃ row ∈ rows, Fits row bytes))

/-- The bytes are one character after another. -/
inductive WellFormed : List UInt8 → Prop where
  | nil : WellFormed []
  | append {bytes rest : List UInt8} :
      IsCharacter bytes → WellFormed rest → WellFormed (bytes ++ rest)

theorem isCharacter_encodeChar (c : Char) : IsCharacter (String.utf8EncodeChar c) := by
  have valid : c.val.toNat < 0xD800 ∨ 0xDFFF < c.val.toNat ∧ c.val.toNat < 0x110000 := c.valid
  unfold String.utf8EncodeChar
  generalize c.val.toNat = v at valid
  simp only [IsCharacter, rows, Fits, tailRange]
  split
  case isTrue one => simp; omega
  split
  case isTrue two => simp; omega
  split
  case isTrue three => simp; omega
  case isFalse four => simp; omega

private theorem encodeChar_ofNat {v : Nat} (valid : v.isValidChar) :
    String.utf8EncodeChar (Char.ofNat v) =
      if v ≤ 0x7F then [UInt8.ofNat v]
      else if v ≤ 0x7FF then [UInt8.ofNat (v / 64 % 32 + 0xC0), UInt8.ofNat (v % 64 + 0x80)]
      else if v ≤ 0xFFFF then
        [UInt8.ofNat (v / 4096 % 16 + 0xE0), UInt8.ofNat (v / 64 % 64 + 0x80),
          UInt8.ofNat (v % 64 + 0x80)]
      else
        [UInt8.ofNat (v / 262144 % 8 + 0xF0), UInt8.ofNat (v / 4096 % 64 + 0x80),
          UInt8.ofNat (v / 64 % 64 + 0x80), UInt8.ofNat (v % 64 + 0x80)] := by
  have toNat : (Char.ofNat v).val.toNat = v := by
    rw [Char.ofNat, dif_pos valid]
    rfl
  simp only [String.utf8EncodeChar, toNat]

private theorem ofNat_eq {v : Nat} {b : UInt8} (h : v = b.toNat) : UInt8.ofNat v = b := by
  rw [h, UInt8.ofNat_toNat]

/-- The character's number is put together from what each byte exceeds its marker by. -/
theorem exists_encodeChar {bytes : List UInt8} (h : IsCharacter bytes) :
    ∃ c, String.utf8EncodeChar c = bytes := by
  match bytes with
  | [] => simp [IsCharacter, rows, Fits] at h
  | [a] =>
      have range : a.toNat ≤ 0x7F := by simpa [IsCharacter, rows, Fits] using h
      refine ⟨Char.ofNat a.toNat, ?_⟩
      rw [encodeChar_ofNat (.inl (by omega)), if_pos range, UInt8.ofNat_toNat]
  | [a, b] =>
      have ranges : (0xC2 ≤ a.toNat ∧ a.toNat ≤ 0xDF) ∧ 0x80 ≤ b.toNat ∧ b.toNat ≤ 0xBF := by
        simpa [IsCharacter, rows, Fits, tailRange] using h
      refine ⟨Char.ofNat (64 * (a.toNat - 0xC0) + (b.toNat - 0x80)), ?_⟩
      rw [encodeChar_ofNat (.inl (by omega)), if_neg (by omega), if_pos (by omega),
        ofNat_eq (b := a) (by omega), ofNat_eq (b := b) (by omega)]
  | [a, b, c] =>
      have ranges : (0xE0 ≤ a.toNat ∧ a.toNat ≤ 0xEF) ∧ (0x80 ≤ b.toNat ∧ b.toNat ≤ 0xBF) ∧
          (0x80 ≤ c.toNat ∧ c.toNat ≤ 0xBF) ∧ (a.toNat = 0xE0 → 0xA0 ≤ b.toNat) ∧
          (a.toNat = 0xED → b.toNat ≤ 0x9F) := by
        simp [IsCharacter, rows, Fits, tailRange] at h
        omega
      refine ⟨Char.ofNat (4096 * (a.toNat - 0xE0) + 64 * (b.toNat - 0x80) + (c.toNat - 0x80)), ?_⟩
      rw [encodeChar_ofNat (by simp only [Nat.isValidChar]; omega), if_neg (by omega),
        if_neg (by omega), if_pos (by omega), ofNat_eq (b := a) (by omega),
        ofNat_eq (b := b) (by omega), ofNat_eq (b := c) (by omega)]
  | [a, b, c, d] =>
      have ranges : (0xF0 ≤ a.toNat ∧ a.toNat ≤ 0xF4) ∧ (0x80 ≤ b.toNat ∧ b.toNat ≤ 0xBF) ∧
          (0x80 ≤ c.toNat ∧ c.toNat ≤ 0xBF) ∧ (0x80 ≤ d.toNat ∧ d.toNat ≤ 0xBF) ∧
          (a.toNat = 0xF0 → 0x90 ≤ b.toNat) ∧ (a.toNat = 0xF4 → b.toNat ≤ 0x8F) := by
        simp [IsCharacter, rows, Fits, tailRange] at h
        omega
      refine ⟨Char.ofNat (262144 * (a.toNat - 0xF0) + 4096 * (b.toNat - 0x80) +
        64 * (c.toNat - 0x80) + (d.toNat - 0x80)), ?_⟩
      rw [encodeChar_ofNat (by simp only [Nat.isValidChar]; omega), if_neg (by omega),
        if_neg (by omega), if_neg (by omega), ofNat_eq (b := a) (by omega),
        ofNat_eq (b := b) (by omega), ofNat_eq (b := c) (by omega), ofNat_eq (b := d) (by omega)]
  | _ :: _ :: _ :: _ :: _ :: _ => simp [IsCharacter, rows, Fits, tailRange] at h

/-- The byte sequences of the table are the written characters. -/
theorem isCharacter_iff {bytes : List UInt8} :
    IsCharacter bytes ↔ ∃ c, String.utf8EncodeChar c = bytes := by
  constructor
  · intro h
    exact exists_encodeChar h
  · rintro ⟨c, rfl⟩
    exact isCharacter_encodeChar c

/-- An overlong form, a surrogate and a number above U+10FFFF are no characters. -/
example : ∀ bytes ∈ [[0xC0, 0x80], [0xED, 0xA0, 0x80], [0xF4, 0x90, 0x80, 0x80]],
    ¬ IsCharacter bytes := by decide

theorem Fits.zero_notMem {row : List (Nat × Nat)} {bytes : List UInt8} (h : Fits row bytes)
    (pos : ∀ range ∈ row, 0 < range.1) : 0 ∉ bytes := by
  induction h with
  | nil => exact List.not_mem_nil
  | cons inside _ ih =>
      obtain ⟨here, after⟩ := List.forall_mem_cons.mp pos
      rw [List.mem_cons, not_or]
      refine ⟨?_, ih after⟩
      rintro rfl
      exact absurd inside.1 (Nat.not_le.mpr here)

theorem zero_mem_encodeChar_iff {c : Char} : 0 ∈ String.utf8EncodeChar c ↔ c = '\x00' := by
  have null : String.utf8EncodeChar '\x00' = [0] := by decide
  constructor
  · intro zero
    obtain ⟨row, mem, fits⟩ := isCharacter_encodeChar c
    have low : ∀ row ∈ rows, row = [(0x00, 0x7F)] ∨ ∀ range ∈ row, 0 < range.1 := by decide
    rcases low row mem with rfl | pos
    · obtain ⟨a, -, one⟩ : ∃ a : UInt8, a.toNat ≤ 0x7F ∧ String.utf8EncodeChar c = [a] := by
        simpa [Fits, List.forall₂_cons_left_iff] using fits
      rw [one, List.mem_singleton] at zero
      have eq : encode [c] = encode ['\x00'] := by
        rw [encode_cons, encode_cons, one, null, zero]
      exact List.singleton_inj.mp (encode_injective eq)
    · exact absurd zero (fits.zero_notMem pos)
  · rintro rfl
    rw [null]
    exact List.mem_singleton_self 0

theorem zero_mem_encode_iff {text : List Char} : 0 ∈ encode text ↔ '\x00' ∈ text := by
  simp [encode, zero_mem_encodeChar_iff]

theorem length_encode (text : String) : (encode text.toList).length = text.utf8ByteSize := by
  rw [String.utf8ByteSize, ← String.utf8Encode_toList]
  simp [List.utf8Encode, encode]

theorem wellFormed_encode (text : List Char) : WellFormed (encode text) := by
  induction text with
  | nil => exact .nil
  | cons c text ih => exact .append (isCharacter_encodeChar c) ih

/-- The well-formed bytes are the written texts. -/
theorem wellFormed_iff {bytes : List UInt8} :
    WellFormed bytes ↔ ∃ text, encode text = bytes := by
  constructor
  · intro h
    induction h with
    | nil => exact ⟨[], rfl⟩
    | append character _ ih =>
        obtain ⟨c, rfl⟩ := isCharacter_iff.mp character
        obtain ⟨text, rfl⟩ := ih
        exact ⟨c :: text, encode_cons c text⟩
  · rintro ⟨text, rfl⟩
    exact wellFormed_encode text

/-- Exactly the well-formed bytes are kept when they are read and written again. -/
theorem encode_lossy_eq_iff {bytes : List UInt8} :
    encode (lossy bytes) = bytes ↔ WellFormed bytes := by
  constructor
  · intro h
    exact h ▸ wellFormed_encode (lossy bytes)
  · intro h
    obtain ⟨text, rfl⟩ := wellFormed_iff.mp h
    rw [lossy_encode]

end SaveContainer.Utf8
