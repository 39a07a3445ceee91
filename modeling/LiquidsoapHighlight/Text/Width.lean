/-!
Offsets and lengths of a text count the bytes of its UTF-8 form.
-/

namespace LiquidsoapHighlight
namespace Text

/-- The number of bytes that a text takes. -/
def byteLength (text : List Char) : Nat :=
  text.foldr (fun c n => c.utf8Size + n) 0

theorem byteLength_nil : byteLength [] = 0 := rfl

theorem byteLength_cons (c : Char) (text : List Char) :
    byteLength (c :: text) = c.utf8Size + byteLength text := rfl

theorem byteLength_append (a b : List Char) :
    byteLength (a ++ b) = byteLength a + byteLength b := by
  induction a with
  | nil => simp [byteLength_nil]
  | cons c a ih =>
      simp only [List.cons_append, byteLength_cons, ih]
      omega

end Text
end LiquidsoapHighlight
