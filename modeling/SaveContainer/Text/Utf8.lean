/-!
UTF-8 over lists of bytes. `lossy` reads any bytes: every longest beginning of a character
that goes no further becomes one replacement character, and a byte that can begin none
becomes one too. Main statements: reading a written text gives it back, and the bytes are
well formed exactly when writing what was read gives them back.
-/

namespace SaveContainer.Utf8

/-- What stands for bytes that are no character. -/
def replacement : Char := '\uFFFD'

def encode (text : List Char) : List UInt8 :=
  text.flatMap String.utf8EncodeChar

/-- The character whose written form the bytes start with. -/
def front? (bytes : List UInt8) : Option Char :=
  (bytes.take 4).toByteArray.utf8DecodeChar? 0

def isTail (b : UInt8) : Bool :=
  0x80 ≤ b && b ≤ 0xBF

/-- Whether `b` may follow the first byte `a` of a character of three or four bytes. The
narrower ranges keep out overlong forms, surrogates and numbers above U+10FFFF. -/
def mayFollow (a b : UInt8) : Bool :=
  if a = 0xE0 then 0xA0 ≤ b && b ≤ 0xBF
  else if a = 0xED then 0x80 ≤ b && b ≤ 0x9F
  else if a = 0xF0 then 0x90 ≤ b && b ≤ 0xBF
  else if a = 0xF4 then 0x80 ≤ b && b ≤ 0x8F
  else 0xE1 ≤ a && a ≤ 0xF3 && isTail b

/-- How many bytes at the front one replacement character stands for, when no character
stands there. -/
def faultSize : List UInt8 → Nat
  | a :: b :: rest =>
    if mayFollow a b then
      match rest with
      | c :: _ => if 0xF0 ≤ a && isTail c then 3 else 2
      | [] => 2
    else 1
  | _ => 1

/-- Reads on after passing over `skip` bytes that belong to what was read last. -/
def lossyFrom : Nat → List UInt8 → List Char
  | _, [] => []
  | skip + 1, _ :: rest => lossyFrom skip rest
  | 0, b :: rest =>
    match front? (b :: rest) with
    | some c => c :: lossyFrom (c.utf8Size - 1) rest
    | none => replacement :: lossyFrom (faultSize (b :: rest) - 1) rest

def lossy (bytes : List UInt8) : List Char :=
  lossyFrom 0 bytes

/-- The text whose written form the bytes are. -/
def decode? (bytes : List UInt8) : Option (List Char) :=
  if encode (lossy bytes) = bytes then some (lossy bytes) else none

@[simp] theorem encode_nil : encode [] = [] := rfl

@[simp] theorem encode_cons (c : Char) (text : List Char) :
    encode (c :: text) = String.utf8EncodeChar c ++ encode text := rfl

@[simp] theorem encode_append (s t : List Char) : encode (s ++ t) = encode s ++ encode t := by
  simp [encode]

theorem front?_encodeChar_append (c : Char) (rest : List UInt8) :
    front? (String.utf8EncodeChar c ++ rest) = some c := by
  have hlen : (String.utf8EncodeChar c).length ≤ 4 := by
    rw [String.length_utf8EncodeChar]; exact c.utf8Size_le_four
  rw [front?, List.take_append, List.take_of_length_le hlen, List.toByteArray_append]
  exact ByteArray.utf8DecodeChar?_utf8EncodeChar_append

theorem lossyFrom_append (skipped rest : List UInt8) :
    lossyFrom skipped.length (skipped ++ rest) = lossyFrom 0 rest := by
  induction skipped with
  | nil => rfl
  | cons b bs ih => simpa [lossyFrom] using ih

/-- Reading a written text gives it back, whatever bytes follow. -/
theorem lossy_encode_append (text : List Char) (rest : List UInt8) :
    lossy (encode text ++ rest) = text ++ lossy rest := by
  induction text with
  | nil => rfl
  | cons c cs ih =>
      obtain ⟨b, bs, hb⟩ : ∃ b bs, String.utf8EncodeChar c = b :: bs := by
        cases h : String.utf8EncodeChar c with
        | nil =>
            have := c.utf8Size_pos
            rw [← String.length_utf8EncodeChar, h] at this
            simp at this
        | cons b bs => exact ⟨b, bs, rfl⟩
      have hsize : c.utf8Size - 1 = bs.length := by
        rw [← String.length_utf8EncodeChar, hb]; rfl
      have hfront : front? (b :: (bs ++ (encode cs ++ rest))) = some c := by
        have := front?_encodeChar_append c (encode cs ++ rest)
        rwa [hb] at this
      simp only [encode_cons, hb, List.cons_append, List.append_assoc, lossy, lossyFrom, hfront]
      rw [hsize, lossyFrom_append]
      exact congrArg (c :: ·) ih

@[simp] theorem lossy_encode (text : List Char) : lossy (encode text) = text := by
  simpa [lossy, lossyFrom] using lossy_encode_append text []

theorem encode_injective {s t : List Char} (h : encode s = encode t) : s = t := by
  rw [← lossy_encode s, h, lossy_encode]

theorem decode?_eq_some_iff {bytes : List UInt8} {text : List Char} :
    decode? bytes = some text ↔ encode text = bytes := by
  constructor
  · intro h
    unfold decode? at h
    split at h
    · next hb => rwa [← Option.some.inj h]
    · cases h
  · rintro rfl
    simp [decode?]

end SaveContainer.Utf8
