import SaveContainer.Text.Quoted

/-!
Entry names as a container stores them: up to sixteen bytes other than zero, in a cell that is
filled up with zeros. Main statements: exactly the byte strings that fit have a name, the name
gives them back, and two names are equal exactly when their bytes are.
-/

namespace SaveContainer

/-- A name in its cell. A byte of the cell is zero exactly past the end of the name, so one
name has one cell. -/
structure ShortName where
  cell : Vector UInt8 16
  size : Nat
  size_le : size ≤ 16
  zero_iff : ∀ i (h : i < 16), cell[i] = 0 ↔ size ≤ i
  deriving DecidableEq

/-- Why a byte string is no entry name. -/
inductive NameFault where
  | tooLong (bytes : List UInt8)
  | holdsZero (bytes : List UInt8)
  | notUtf8 (bytes : List UInt8)
  deriving DecidableEq

namespace ShortName

def capacity : Nat := 16

def toBytes (n : ShortName) : List UInt8 :=
  n.cell.toList.take n.size

private theorem filled_eq_zero_iff {bytes : List UInt8} (h : (0 : UInt8) ∉ bytes) (i : Nat) :
    bytes[i]?.getD 0 = 0 ↔ bytes.length ≤ i := by
  cases hi : bytes[i]? with
  | none => simpa using hi
  | some b =>
      obtain ⟨hlt, rfl⟩ := List.getElem?_eq_some_iff.1 hi
      have : bytes[i] ≠ 0 := fun h0 => h (h0 ▸ List.getElem_mem hlt)
      simp [this, Nat.not_le.2 hlt]

/-- The length is looked at first. -/
def ofBytes (bytes : List UInt8) : Except NameFault ShortName :=
  if hlen : capacity < bytes.length then .error (.tooLong bytes)
  else if hzero : (0 : UInt8) ∈ bytes then .error (.holdsZero bytes)
  else .ok
    { cell := Vector.ofFn fun i : Fin 16 => bytes[i.val]?.getD 0
      size := bytes.length
      size_le := Nat.le_of_not_lt hlen
      zero_iff := fun i h => by simpa using filled_eq_zero_iff hzero i }

def ofText (text : String) : Except NameFault ShortName :=
  ofBytes (Utf8.encode text.toList)

/-- The name of no bytes, which the root of a container has. -/
def empty : ShortName where
  cell := Vector.replicate 16 0
  size := 0
  size_le := by decide
  zero_iff := by simp

instance : Inhabited ShortName := ⟨empty⟩

def isEmpty (n : ShortName) : Bool :=
  n.size == 0

def display (n : ShortName) : String :=
  String.ofList (Utf8.lossy n.toBytes)

/-- The name as a record with its quoted text, for diagnostics. -/
def describe (n : ShortName) : String :=
  "EntryName(" ++ Quoted.quote (Utf8.lossy n.toBytes) ++ ")"

@[simp] theorem length_toBytes (n : ShortName) : n.toBytes.length = n.size := by
  simp [toBytes, n.size_le]

theorem zero_notMem_toBytes (n : ShortName) : (0 : UInt8) ∉ n.toBytes := by
  intro h
  obtain ⟨i, hi, h0⟩ := List.getElem_of_mem h
  have hs : i < n.size := by simpa using hi
  have h16 : i < 16 := Nat.lt_of_lt_of_le hs n.size_le
  have : n.cell[i] = 0 := by simpa [toBytes] using h0
  exact Nat.not_le.2 hs ((n.zero_iff i h16).1 this)

theorem toBytes_ofBytes {bytes : List UInt8} {n : ShortName} (h : ofBytes bytes = .ok n) :
    n.toBytes = bytes := by
  unfold ofBytes at h
  split at h
  · cases h
  · next hlen =>
      split at h
      · cases h
      · cases h
        have hle : bytes.length ≤ 16 := Nat.le_of_not_lt hlen
        apply List.ext_getElem
        · simp [toBytes, hle]
        · intro i h₁ h₂
          simp [toBytes, h₂]

theorem ofBytes_isOk_iff {bytes : List UInt8} :
    (∃ n, ofBytes bytes = .ok n) ↔ bytes.length ≤ capacity ∧ (0 : UInt8) ∉ bytes := by
  unfold ofBytes
  split
  · next h => simp [Nat.not_le.2 h]
  · next h => split <;> simp_all [Nat.le_of_not_lt h]

theorem toBytes_injective {m n : ShortName} (h : m.toBytes = n.toBytes) : m = n := by
  have hsize : m.size = n.size := by simpa using congrArg List.length h
  have hcell : m.cell = n.cell := by
    apply Vector.ext
    intro i hi
    by_cases hs : i < m.size
    · have h₁ : m.toBytes[i]? = some m.cell[i] := by simp [toBytes, hs]
      have h₂ : n.toBytes[i]? = some n.cell[i] := by simp [toBytes, hsize ▸ hs]
      rw [h, h₂] at h₁
      exact (Option.some.inj h₁).symm
    · rw [(m.zero_iff i hi).2 (Nat.le_of_not_lt hs),
        (n.zero_iff i hi).2 (Nat.le_of_not_lt (hsize ▸ hs))]
  cases m; cases n; cases hsize; cases hcell; rfl

theorem ofBytes_toBytes (n : ShortName) : ofBytes n.toBytes = .ok n := by
  obtain ⟨m, hm⟩ := ofBytes_isOk_iff.2
    ⟨by simpa [capacity] using n.size_le, n.zero_notMem_toBytes⟩
  rw [hm, toBytes_injective (toBytes_ofBytes hm)]

end ShortName

namespace NameFault

def message : NameFault → String
  | .tooLong bytes =>
    s!"{Quoted.quote (Utf8.lossy bytes)} is {bytes.length} bytes, limit is {ShortName.capacity}"
  | .holdsZero bytes => s!"{Quoted.quote (Utf8.lossy bytes)} contains a NUL byte"
  | .notUtf8 bytes => s!"{String.ofList (Utf8.lossy bytes)} is not valid UTF-8"

end NameFault
end SaveContainer
