/-!
What stands between the parts of a document: blanks, line ends and comments. A reader takes a part
off the start of a text and returns the rest.
-/

namespace LiquidsoapHighlight
namespace Toml

abbrev Reader (α : Type) := List Char → Option (α × List Char)

def isBlank (c : Char) : Bool := c == ' ' || c == '\t'

/-- Not a control character, or a tab. -/
def isPlain (c : Char) : Bool := c == '\t' || (0x20 ≤ c.toNat && c.toNat ≠ 0x7f)

def skipBlanks (text : List Char) : List Char := text.dropWhile isBlank

/-- Takes a line end, which the end of the text may stand for. -/
def skipLineEnd? : List Char → Option (List Char)
  | [] => some []
  | '\n' :: rest => some rest
  | '\r' :: '\n' :: rest => some rest
  | _ => none

/-- Takes the rest of a line that may only hold a comment. -/
def skipLine? (text : List Char) : Option (List Char) :=
  match skipBlanks text with
  | '#' :: rest => skipLineEnd? (rest.dropWhile isPlain)
  | rest => skipLineEnd? rest

/-- Takes the blanks, line ends and comments between the items of an array. The first argument says
whether a comment is open. -/
def skipFiller? : Bool → List Char → Option (List Char)
  | _, [] => some []
  | _, '\n' :: rest => skipFiller? false rest
  | _, '\r' :: '\n' :: rest => skipFiller? false rest
  | false, '#' :: rest => skipFiller? true rest
  | false, c :: rest => if isBlank c then skipFiller? false rest else some (c :: rest)
  | true, c :: rest => if isPlain c then skipFiller? true rest else none

end Toml
end LiquidsoapHighlight
