import SaveContainer.Proofs.Containment
import SaveContainer.Proofs.LossyReading

/-!
What becomes of a name when it is turned into text and back. Bytes that are no text are replaced,
the others stay; so the text of a name that is one component of a path is one component, too.
-/

namespace SaveContainer

namespace Utf8

theorem length_encode_lossy_le (bytes : List UInt8) :
    (encode (lossy bytes)).length ≤ 3 * bytes.length := by
  have reads := reads_lossy bytes
  generalize lossy bytes = text at reads ⊢
  induction reads with
  | nil => exact Nat.le_refl _
  | char c _ ih =>
      rw [encode_cons, List.length_append, List.length_append]
      omega
  | fault fault _ ih =>
      have three : (String.utf8EncodeChar replacement).length = 3 := rfl
      have filled := List.length_pos_iff.mpr fault.ne_nil
      rw [encode_cons, List.length_append, List.length_append, three]
      omega

theorem mem_encode_lossy {bytes : List UInt8} {b : UInt8} (mem : b ∈ encode (lossy bytes)) :
    b ∈ bytes ∨ b ∈ String.utf8EncodeChar replacement := by
  have reads := reads_lossy bytes
  generalize lossy bytes = text at reads mem
  induction reads with
  | nil => exact .inl mem
  | char c _ ih =>
      rw [encode_cons, List.mem_append] at mem
      rcases mem with here | later
      · exact .inl (List.mem_append_left _ here)
      · exact (ih later).imp_left (List.mem_append_right _)
  | fault fault _ ih =>
      rw [encode_cons, List.mem_append] at mem
      rcases mem with here | later
      · exact .inr here
      · exact (ih later).imp_left (List.mem_append_right _)

/-- Without a replacement the bytes are text already. -/
theorem encode_lossy {bytes : List UInt8} (text : 0xEF ∉ encode (lossy bytes)) :
    encode (lossy bytes) = bytes := by
  have reads := reads_lossy bytes
  generalize lossy bytes = characters at reads text ⊢
  induction reads with
  | nil => rfl
  | char c _ ih =>
      rw [encode_cons, List.mem_append, not_or] at text
      rw [encode_cons, ih text.2]
  | fault fault _ ih =>
      rw [encode_cons] at text
      exact absurd (List.mem_append_left _ (by decide)) text

end Utf8

namespace Path

/-- The bytes are one component of a path, be they text or not. -/
structure IsPart (bytes : List UInt8) : Prop where
  ne_nil : bytes ≠ []
  slash_notMem : slash ∉ bytes
  ne_dot : bytes ≠ dot
  ne_dotDot : bytes ≠ dotDot

instance (bytes : List UInt8) : Decidable (IsPart bytes) :=
  decidable_of_iff (bytes ≠ [] ∧ slash ∉ bytes ∧ bytes ≠ dot ∧ bytes ≠ dotDot)
    ⟨fun ⟨h₁, h₂, h₃, h₄⟩ => ⟨h₁, h₂, h₃, h₄⟩, fun ⟨h₁, h₂, h₃, h₄⟩ => ⟨h₁, h₂, h₃, h₄⟩⟩

theorem IsName.isPart {name : FileName} (h : IsName name) : IsPart name :=
  ⟨h.ne_nil, h.slash_notMem, h.ne_dot, h.ne_dotDot⟩

end Path

/-- The text of a name of one component can name an entry. -/
theorem ShortName.isName_display {n : ShortName} (h : Path.IsPart n.toBytes) :
    Path.IsName (Path.ofText n.display).bytes := by
  have bytes : (Path.ofText n.display).bytes = Utf8.encode (Utf8.lossy n.toBytes) := by
    rw [Path.ofText, ShortName.display, String.toList_ofList]
  have unchanged (name : FileName) (ascii : 0xEF ∉ name) (ne : n.toBytes ≠ name) :
      Utf8.encode (Utf8.lossy n.toBytes) ≠ name := by
    intro eq
    rw [Utf8.encode_lossy (eq ▸ ascii)] at eq
    exact ne eq
  have size := n.size_le
  have length := Utf8.length_encode_lossy_le n.toBytes
  rw [ShortName.length_toBytes] at length
  rw [bytes]
  constructor
  case ne_nil => exact unchanged [] (by decide) h.ne_nil
  case slash_notMem =>
    intro mem
    exact (Utf8.mem_encode_lossy mem).elim h.slash_notMem (by decide)
  case zero_notMem =>
    intro mem
    exact (Utf8.mem_encode_lossy mem).elim n.zero_notMem_toBytes (by decide)
  case ne_dot => exact unchanged Path.dot (by decide) h.ne_dot
  case ne_dotDot => exact unchanged Path.dotDot (by decide) h.ne_dotDot
  case length_le =>
    exact Nat.le_trans length (Nat.le_trans (Nat.mul_le_mul_left 3 size) (by decide))

end SaveContainer
