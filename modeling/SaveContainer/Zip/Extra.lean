import SaveContainer.Zip.Bytes

/-!
The extra fields of a member that bear on where its header is and on its compression method:
the wide sizes and places, and the field of encrypted members. A list of fields that breaks
off counts as far as it goes.
-/

namespace SaveContainer.Zip

/-- The values of a member that extra fields may replace. -/
structure ExtraValues where
  fullSize : Nat
  packedSize : Nat
  headerPlace : Nat
  method : Nat
  /-- Whether a field of an encrypted member was accepted. -/
  aes : Bool

namespace ExtraValues

def wideKind : Nat := 0x0001
def aesKind : Nat := 0x9901
def aesVendor : Nat := 0x4541

/-- Replaces one value from the bytes at `place` if its own field is full. The value, the next
place, and whether there were enough bytes. -/
def widen (data : ByteArray) (place value : Nat) : Nat × Nat × Bool :=
  if value = full32 then
    match number? data place 8 with
    | some wide => (wide, place + 8, true)
    | none => (value, place, false)
  else (value, place, true)

/-- Reads the wide field at `place`. The next place is missing if the bytes ran out. -/
def readWide (data : ByteArray) (place : Nat) (v : ExtraValues) : ExtraValues × Option Nat :=
  let (fullSize, place, more) := widen data place v.fullSize
  let v := { v with fullSize }
  if !more then (v, none)
  else
    let (packedSize, place, more) := widen data place v.packedSize
    let v := { v with packedSize }
    if !more then (v, none)
    else
      let (headerPlace, place, more) := widen data place v.headerPlace
      ({ v with headerPlace }, if more then some place else none)

/-- Reads the seven bytes of the field of an encrypted member, if they are there. -/
def readAes (data : ByteArray) (place : Nat) (v : ExtraValues) :
    Except ZipFault (Option ExtraValues) :=
  match number? data place 2, number? data (place + 2) 2, number? data (place + 4) 1,
      number? data (place + 5) 2 with
  | some version, some vendor, some strength, some method =>
    if vendor ≠ aesVendor then .error .aesVendor
    else if version ≠ 1 ∧ version ≠ 2 then .error .aesVersion
    else if strength = 0 ∨ 3 < strength then .error .aesStrength
    else .ok (some { v with method, aes := true })
  | _, _, _, _ => .ok none

/-- Reads fields from `place` on, at most `fields` of them. What is left of a field when its
values were read is passed over; of the field of an encrypted member that is its whole size
once more. -/
def readFrom (data : ByteArray) : (fields place : Nat) → ExtraValues →
    Except ZipFault ExtraValues
  | 0, _, v => .ok v
  | fields + 1, place, v =>
    if data.size ≤ place then .ok v
    else match number? data place 2, number? data (place + 2) 2 with
      | some kind, some size =>
        let start := place + 4
        if kind = wideKind then
          match readWide data start v with
          | (v, none) => .ok v
          | (v, some next) => readFrom data fields (max next (start + size)) v
        else if kind = aesKind then
          if size ≠ 7 then .error .aesFieldSize
          else match readAes data start v with
            | .error e => .error e
            | .ok none => .ok v
            | .ok (some v) => readFrom data fields (start + 7 + size) v
        else readFrom data fields (start + size) v
      | _, _ => .ok v

/-- Reads all fields. Each takes four bytes at least. -/
def read (extra : ByteArray) (v : ExtraValues) : Except ZipFault ExtraValues :=
  readFrom extra extra.size 0 v

end ExtraValues
end SaveContainer.Zip
