import LiquidsoapHighlight.Regex.Basic
import LiquidsoapHighlight.Text.Width

/-!
The number of bytes of the shortest text that an expression can match. It reads the expression
alone: a choice counts as impossible as soon as one branch is.
-/

namespace LiquidsoapHighlight
namespace CharClass

/-- The code points at which the characters outside a set can begin: the first of all, the first
after the surrogates, and the one after each range. -/
def outsideStarts (s : CodeRanges) : List Nat :=
  0 :: 0xe000 :: s.ranges.map fun range => range.2 + 1

/-- The least code point of a class. -/
def least? (s : CharClass) : Option Nat :=
  if s.negated then
    ((outsideStarts s.listed).filter fun code =>
      decide code.isValidChar && !s.listed.containsCode code).min?
  else (s.listed.ranges.map Prod.fst).min?

/-- The bytes of the least character, which are the fewest. -/
def minLength? (s : CharClass) : Option Nat :=
  s.least?.map fun code => (Char.ofNat code).utf8Size

end CharClass

namespace Regex

def minLength? : Regex → Option Nat
  | empty => some 0
  | oneOf s => s.minLength?
  | boundary => some 0
  | seq r s => do return (← minLength? r) + (← minLength? s)
  | alt r s => do return min (← minLength? r) (← minLength? s)
  | opt r => (minLength? r).map fun _ => 0
  | star r => (minLength? r).map fun _ => 0
  | plus r => minLength? r
  | capture r => minLength? r

end Regex
end LiquidsoapHighlight
