import LiquidsoapHighlight.Toml.Quoted
import LiquidsoapHighlight.Toml.Value

/-!
Keys, bare or quoted, alone or with dots between them.
-/

namespace LiquidsoapHighlight
namespace Toml

def isBareKeyChar (c : Char) : Bool := c.isAlphanum || c == '_' || c == '-'

def simpleKey? : Reader Key
  | '"' :: rest => basicString? rest
  | '\'' :: rest => literalString? rest
  | text =>
    let key := text.takeWhile isBareKeyChar
    if key.isEmpty then none else some (key, text.dropWhile isBareKeyChar)

/-- Keys with dots between them, no more than the limit. -/
def dottedKey? : Nat → Reader (List Key)
  | 0, _ => none
  | limit + 1, text => do
    let (key, rest) ← simpleKey? (skipBlanks text)
    match skipBlanks rest with
    | '.' :: rest =>
      let (keys, rest) ← dottedKey? limit rest
      return (key :: keys, rest)
    | rest => return ([key], rest)

end Toml
end LiquidsoapHighlight
