import LiquidsoapHighlight.Text.Width

/-!
Characters and bytes of a text. Offsets of which slices are taken have to fall between characters;
between two such offsets the bytes of a text are those of the characters there.
-/

namespace LiquidsoapHighlight
namespace Text

/-- The offset is that of a character's first byte, or the end of the text. -/
def IsBoundary (text : List Char) (offset : Nat) : Prop :=
  String.Pos.Raw.IsValid (String.ofList text) ⟨offset⟩

theorem size_utf8Encode (text : List Char) : text.utf8Encode.size = byteLength text := by
  induction text with
  | nil => simp [byteLength_nil]
  | cons c text ih =>
      rw [List.utf8Encode_cons, ByteArray.size_append, ih, byteLength_cons,
        List.utf8Encode_singleton]
      simp

theorem isBoundary_byteLength (front back : List Char) :
    IsBoundary (front ++ back) (byteLength front) := by
  unfold IsBoundary
  rw [String.Pos.Raw.isValid_ofList]
  refine ⟨front.length, ?_⟩
  rw [List.take_left, ← size_utf8Encode front, ← String.toByteArray_ofList,
    String.size_toByteArray]

theorem isBoundary_take (text : List Char) (count : Nat) :
    IsBoundary text (byteLength (text.take count)) := by
  have h := isBoundary_byteLength (text.take count) (text.drop count)
  rwa [List.take_append_drop] at h

/-- The bytes between the offsets at which a part of a text begins and ends. -/
theorem extract_utf8Encode (front middle back : List Char) :
    (front ++ middle ++ back).utf8Encode.extract (byteLength front)
      (byteLength front + byteLength middle) = middle.utf8Encode := by
  rw [List.append_assoc, List.utf8Encode_append, List.utf8Encode_append,
    ← size_utf8Encode front, ← size_utf8Encode middle]
  exact (ByteArray.extract_append_size_add (i := 0)).trans
    (ByteArray.extract_append_eq_left rfl)

theorem length_le_byteLength (text : List Char) : text.length ≤ byteLength text := by
  induction text with
  | nil => exact Nat.le_refl 0
  | cons c text ih =>
      have hpos := c.utf8Size_pos
      rw [List.length_cons, byteLength_cons]
      omega

theorem byteLength_pos {text : List Char} (h : text ≠ []) : 0 < byteLength text :=
  Nat.lt_of_lt_of_le (List.length_pos_iff.mpr h) (length_le_byteLength text)

theorem byteLength_le_of_prefix {front text : List Char} (h : front <+: text) :
    byteLength front ≤ byteLength text := by
  obtain ⟨back, rfl⟩ := h
  rw [byteLength_append]
  exact Nat.le_add_right _ _

end Text
end LiquidsoapHighlight
