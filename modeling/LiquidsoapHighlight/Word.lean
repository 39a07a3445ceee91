/-!
Identifier-like words. Their characters are ASCII; any other character ends a word.
-/

namespace LiquidsoapHighlight
namespace Word

def isStart (c : Char) : Bool := c.isAlpha || c == '_'

def isContinue (c : Char) : Bool := c.isAlphanum || c == '_'

/-- The longest word at the start of a text, empty if none starts there. -/
def run : List Char → List Char
  | [] => []
  | c :: rest => if isStart c then c :: rest.takeWhile isContinue else []

def isWord (text : List Char) : Bool := run text == text

end Word
end LiquidsoapHighlight
