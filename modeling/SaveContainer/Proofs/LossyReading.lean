import SaveContainer.Proofs.CharacterForms

/-!
How bytes are read that need not be text. Main statement: reading passes over one character after
another and, where none stands, over the longest beginning of one, which becomes one replacement
character; this rule leaves no choice, so it says for all bytes what is read of them.
-/

namespace SaveContainer.Utf8

/-- The bytes are a beginning of a character or the whole of it. -/
def Begins (bytes : List UInt8) : Prop :=
  ∃ more, IsCharacter (bytes ++ more)

/-- What one replacement character stands for in front of `rest`: the longest beginning of a
character that does not become one, or a single byte. -/
structure IsFault (part rest : List UInt8) : Prop where
  ne_nil : part ≠ []
  no_character : ∀ bytes more, IsCharacter bytes → part ++ rest ≠ bytes ++ more
  begins : Begins part ∨ part.length = 1
  longest : ∀ more, more ≠ [] → more <+: rest → ¬ Begins (part ++ more)

/-- The characters that are read of any bytes. -/
inductive Reads : List UInt8 → List Char → Prop where
  | nil : Reads [] []
  | char (c : Char) {rest : List UInt8} {text : List Char} :
      Reads rest text → Reads (String.utf8EncodeChar c ++ rest) (c :: text)
  | fault {part rest : List UInt8} {text : List Char} :
      IsFault part rest → Reads rest text → Reads (part ++ rest) (replacement :: text)

theorem Begins.of_append {bytes more : List UInt8} (h : Begins (bytes ++ more)) :
    Begins bytes := by
  obtain ⟨last, character⟩ := h
  exact ⟨more ++ last, by rwa [← List.append_assoc]⟩

/-- The bytes are a beginning of a character and not yet the whole of it. -/
def Opens (bytes : List UInt8) : Prop :=
  ∃ row ∈ rows, bytes.length < row.length ∧ Fits (row.take bytes.length) bytes

/-- No range of the table is empty, so a row can be gone on with. -/
theorem exists_fits_append {row : List (Nat × Nat)} (mem : row ∈ rows) {bytes : List UInt8}
    (h : Fits (row.take bytes.length) bytes) : ∃ more, Fits row (bytes ++ more) := by
  have filled : ∀ row ∈ rows, ∀ range ∈ row, range.1 ≤ (UInt8.ofNat range.1).toNat ∧
      (UInt8.ofNat range.1).toNat ≤ range.2 := by decide
  have after : Fits (row.drop bytes.length)
      ((row.drop bytes.length).map fun range => UInt8.ofNat range.1) :=
    List.forall₂_map_right_iff.mpr (List.forall₂_same.mpr fun range at_range =>
      filled row mem range (List.mem_of_mem_drop at_range))
  have whole : Fits (row.take bytes.length ++ row.drop bytes.length) _ := List.rel_append h after
  rw [List.take_append_drop] at whole
  exact ⟨_, whole⟩

theorem begins_iff {bytes : List UInt8} : Begins bytes ↔ IsCharacter bytes ∨ Opens bytes := by
  constructor
  · rintro ⟨more, row, mem, fits⟩
    have start : Fits (row.take bytes.length) bytes :=
      List.forall₂_take_append row bytes more fits
    by_cases whole : row.length ≤ bytes.length
    · rw [List.take_of_length_le whole] at start
      exact .inl ⟨row, mem, start⟩
    · exact .inr ⟨row, mem, Nat.lt_of_not_le whole, start⟩
  · rintro (character | ⟨row, mem, -, start⟩)
    · exact ⟨[], by rwa [List.append_nil]⟩
    · obtain ⟨more, fits⟩ := exists_fits_append mem start
      exact ⟨more, row, mem, fits⟩

section Ranges

/-! The tests of `faultSize` against the table. -/

variable {a b c d : UInt8}

theorem mayFollow_iff :
    mayFollow a b = true ↔
      (0xE0 ≤ a.toNat ∧ a.toNat ≤ 0xF4) ∧ (0x80 ≤ b.toNat ∧ b.toNat ≤ 0xBF) ∧
      (a.toNat = 0xE0 → 0xA0 ≤ b.toNat) ∧ (a.toNat = 0xED → b.toNat ≤ 0x9F) ∧
      (a.toNat = 0xF0 → 0x90 ≤ b.toNat) ∧ (a.toNat = 0xF4 → b.toNat ≤ 0x8F) := by
  simp only [mayFollow, isTail, ← UInt8.toNat_inj, UInt8.reduceToNat]
  split
  case isTrue e0 => simp [UInt8.le_iff_toNat_le]; omega
  split
  case isTrue ed => simp [UInt8.le_iff_toNat_le]; omega
  split
  case isTrue f0 => simp [UInt8.le_iff_toNat_le]; omega
  split
  case isTrue f4 => simp [UInt8.le_iff_toNat_le]; omega
  case isFalse other => simp [UInt8.le_iff_toNat_le]; omega

theorem opens_two_iff : Opens [a, b] ↔ mayFollow a b = true := by
  rw [mayFollow_iff]
  simp [Opens, rows, Fits, tailRange]
  omega

theorem opens_three_iff :
    Opens [a, b, c] ↔ mayFollow a b = true ∧ (0xF0 ≤ a && isTail c) = true := by
  rw [mayFollow_iff]
  simp [Opens, rows, Fits, tailRange, isTail, UInt8.le_iff_toNat_le]
  omega

theorem not_opens_four : ¬ Opens [a, b, c, d] := by
  simp [Opens, rows, tailRange]

end Ranges

/-- What is passed over for a replacement character begins a character, unless it is one byte
only, and the next byte goes no further. -/
theorem exists_skipped (a : UInt8) (rest : List UInt8) :
    ∃ skipped after, rest = skipped ++ after ∧ faultSize (a :: rest) = skipped.length + 1 ∧
      (skipped = [] ∨ Opens (a :: skipped)) ∧
      ∀ b more, after = b :: more → ¬ Opens (a :: skipped ++ [b]) := by
  match rest with
  | [] => exact ⟨[], [], rfl, rfl, .inl rfl, nofun⟩
  | b :: rest =>
      by_cases follows : mayFollow a b = true
      case neg =>
        refine ⟨[], b :: rest, rfl, by simp [faultSize, follows], .inl rfl, ?_⟩
        rintro _ _ ⟨rfl, rfl⟩ further
        exact follows (opens_two_iff.mp further)
      case pos =>
        have second : Opens [a, b] := opens_two_iff.mpr follows
        match rest with
        | [] => exact ⟨[b], [], rfl, by simp [faultSize, follows], .inr second, nofun⟩
        | c :: rest =>
            by_cases third : (0xF0 ≤ a && isTail c) = true
            case neg =>
              refine ⟨[b], c :: rest, rfl, by simp [faultSize, follows, third], .inr second, ?_⟩
              rintro _ _ ⟨rfl, rfl⟩ further
              exact third (opens_three_iff.mp further).2
            case pos =>
              exact ⟨[b, c], rest, rfl, by simp [faultSize, follows, third],
                .inr (opens_three_iff.mpr ⟨follows, third⟩), fun _ _ _ => not_opens_four⟩

theorem longest_of_next {part rest : List UInt8}
    (next : ∀ b more, rest = b :: more → ¬ Begins (part ++ [b])) :
    ∀ more, more ≠ [] → more <+: rest → ¬ Begins (part ++ more) := by
  rintro (_ | ⟨b, more⟩) ne ⟨after, rfl⟩ begins
  · exact ne rfl
  · rw [List.append_cons] at begins
    exact next b (more ++ after) rfl begins.of_append

theorem encodeChar_isPrefix {c : Char} {bytes : List UInt8} (h : front? bytes = some c) :
    String.utf8EncodeChar c <+: bytes := by
  obtain ⟨more, eq⟩ := ByteArray.exists_of_utf8DecodeChar?_eq_some h
  have start : String.utf8EncodeChar c <+: bytes.take 4 := by
    refine ⟨more.data.toList, ?_⟩
    have bytes := congrArg (fun b : ByteArray => b.data.toList) eq
    simpa using bytes.symm
  exact start.trans (List.take_prefix 4 bytes)

theorem lossy_char (c : Char) (rest : List UInt8) :
    lossy (String.utf8EncodeChar c ++ rest) = c :: lossy rest := by
  simpa using lossy_encode_append [c] rest

theorem exists_fault {a : UInt8} {rest : List UInt8} (front : front? (a :: rest) = none) :
    ∃ skipped after, rest = skipped ++ after ∧ IsFault (a :: skipped) after ∧
      lossy (a :: rest) = replacement :: lossy after := by
  have absent (bytes more : List UInt8) (character : IsCharacter bytes) :
      a :: rest ≠ bytes ++ more := by
    intro eq
    obtain ⟨c, rfl⟩ := isCharacter_iff.mp character
    rw [eq, front?_encodeChar_append] at front
    cases front
  obtain ⟨skipped, after, rfl, size, opens, stops⟩ := exists_skipped a rest
  refine ⟨skipped, after, rfl, ?fault, ?read⟩
  case fault =>
    refine ⟨by simp, absent, ?_, longest_of_next fun b more eq begins => ?_⟩
    · exact opens.symm.imp (fun h => begins_iff.mpr (.inr h)) (fun h => by simp [h])
    · rcases begins_iff.mp begins with character | further
      · exact absent _ more character (by simp [eq])
      · exact stops b more eq further
  case read =>
    simp only [lossy, lossyFrom, front, size, Nat.add_sub_cancel, lossyFrom_append]

theorem reads_lossy (bytes : List UInt8) : Reads bytes (lossy bytes) := by
  induction size : bytes.length using Nat.strongRecOn generalizing bytes with
  | ind n ih =>
      match bytes with
      | [] => exact .nil
      | a :: rest =>
          cases front : front? (a :: rest) with
          | some c =>
              obtain ⟨more, eq⟩ := encodeChar_isPrefix front
              have pos := c.utf8Size_pos
              rw [← eq] at size ⊢
              rw [List.length_append, String.length_utf8EncodeChar] at size
              rw [lossy_char]
              exact .char c (ih more.length (by omega) more rfl)
          | none =>
              obtain ⟨skipped, after, rfl, fault, read⟩ := exists_fault front
              rw [List.length_cons, List.length_append] at size
              rw [read]
              exact .fault fault (ih after.length (by omega) after rfl)

namespace IsFault

variable {part part' rest rest' more : List UInt8}

theorem eq_nil_of_append (h : IsFault part (more ++ rest)) (h' : IsFault (part ++ more) rest) :
    more = [] := by
  by_contra ne
  rcases h'.begins with begins | single
  · exact h.longest more ne ⟨rest, rfl⟩ begins
  · have filled := List.length_pos_iff.mpr h.ne_nil
    have added := List.length_pos_iff.mpr ne
    rw [List.length_append] at single
    omega

theorem rest_eq (h : IsFault part rest) (h' : IsFault part' rest')
    (eq : part ++ rest = part' ++ rest') : rest = rest' := by
  rcases List.append_eq_append_iff.mp eq with ⟨more, rfl, rfl⟩ | ⟨more, rfl, rfl⟩
  · obtain rfl := h.eq_nil_of_append h'
    rfl
  · obtain rfl := h'.eq_nil_of_append h
    rfl

theorem lossy_eq (h : IsFault part rest) : lossy (part ++ rest) = replacement :: lossy rest := by
  match part with
  | [] => exact absurd rfl h.ne_nil
  | a :: part =>
      cases front : front? (a :: (part ++ rest)) with
      | some c =>
          obtain ⟨more, eq⟩ := encodeChar_isPrefix front
          exact absurd eq.symm (h.no_character _ more (isCharacter_encodeChar c))
      | none =>
          obtain ⟨skipped, after, eq, fault, read⟩ := exists_fault front
          have same : a :: part ++ rest = a :: skipped ++ after := congrArg (a :: ·) eq
          rw [List.cons_append, read, h.rest_eq fault same]

end IsFault

/-- The rule says for all bytes what is read of them. -/
theorem reads_iff {bytes : List UInt8} {text : List Char} :
    Reads bytes text ↔ lossy bytes = text := by
  constructor
  · intro h
    induction h with
    | nil => rfl
    | char c _ ih => rw [lossy_char, ih]
    | fault fault _ ih => rw [fault.lossy_eq, ih]
  · rintro rfl
    exact reads_lossy bytes

end SaveContainer.Utf8
