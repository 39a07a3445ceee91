import LiquidsoapHighlight.Toml.DateTime
import LiquidsoapHighlight.Toml.Number
import LiquidsoapHighlight.Toml.Quoted
import LiquidsoapHighlight.Toml.Value

/-!
Values that hold no other values. Apart from strings, each is one run of characters; only between
a date and a time a blank may stand.
-/

namespace LiquidsoapHighlight
namespace Toml

def isScalarChar (c : Char) : Bool :=
  c.isAlphanum || c == '_' || c == '+' || c == '-' || c == '.' || c == ':'

def startsWithDigit (text : List Char) : Bool := text.head?.any Char.isDigit

def word? (text : List Char) : Option Value :=
  if text = "true".toList then some (.boolean true)
  else if text = "false".toList then some (.boolean false)
  else
    match integer? text with
    | some n => some (.integer n)
    | none =>
      if isFloat text then some .float
      else if isDateTime text then some .dateTime
      else none

/-- A value that holds no other values. -/
def scalar? : Reader Value
  | '"' :: rest => (string? ('"' :: rest)).map fun (text, rest) => (.string text, rest)
  | '\'' :: rest => (string? ('\'' :: rest)).map fun (text, rest) => (.string text, rest)
  | text =>
    let word := text.takeWhile isScalarChar
    match date? word, text.dropWhile isScalarChar with
    | some [], ' ' :: rest =>
      if startsWithDigit rest then
        if isTimeWithOffset (rest.takeWhile isScalarChar) then
          some (.dateTime, rest.dropWhile isScalarChar)
        else none
      else some (.dateTime, ' ' :: rest)
    | _, rest => (word? word).map (·, rest)

end Toml
end LiquidsoapHighlight
