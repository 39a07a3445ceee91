import LiquidsoapHighlight.Text.Numeral
import LiquidsoapHighlight.Toml.Layout

/-!
Strings, in single or double quotes, on one line or on several.
-/

namespace LiquidsoapHighlight
namespace Toml

/-- The character with a code point written in hexadecimal digits. -/
def charOfHex? (digits : List Char) : Option Char := do
  let code := Text.ofDigits 16 (← digits.mapM Text.digitValue?)
  if code.isValidChar then some (Char.ofNat code) else none

/-- The character that a backslash and this one stand for. -/
def escaped? : Char → Option Char
  | 'b' => some '\x08'
  | 't' => some '\t'
  | 'n' => some '\n'
  | 'f' => some '\x0c'
  | 'r' => some '\r'
  | '"' => some '"'
  | '\\' => some '\\'
  | _ => none

def consFirst (c : Char) (read : List Char × List Char) : List Char × List Char :=
  (c :: read.1, read.2)

/-- The inside of a string in double quotes, up to and with the closing quote. -/
def basicString? : Reader (List Char)
  | [] => none
  | '"' :: rest => some ([], rest)
  | '\\' :: 'u' :: a :: b :: c :: d :: rest => do
    let char ← charOfHex? [a, b, c, d]
    return consFirst char (← basicString? rest)
  | '\\' :: 'U' :: a :: b :: c :: d :: e :: f :: g :: h :: rest => do
    let char ← charOfHex? [a, b, c, d, e, f, g, h]
    return consFirst char (← basicString? rest)
  | '\\' :: c :: rest => do
    let char ← escaped? c
    return consFirst char (← basicString? rest)
  | c :: rest =>
    if isPlain c && c != '\\' then (basicString? rest).map (consFirst c) else none

/-- The inside of a string in single quotes, up to and with the closing quote. -/
def literalString? : Reader (List Char)
  | [] => none
  | '\'' :: rest => some ([], rest)
  | c :: rest => if isPlain c then (literalString? rest).map (consFirst c) else none

/-- What a backslash at the end of a line leaves out. -/
inductive Trim where
  | nothing
  /-- Blanks, and the line end after them, which has to come. -/
  | toLineEnd
  /-- Blanks and line ends. -/
  | space
  deriving DecidableEq

/-- The inside of a string in triple double quotes. Up to two quotes may stand before the closing
ones. -/
def multilineBasicString? : Trim → Reader (List Char)
  | _, [] => none
  | .toLineEnd, '\n' :: rest => multilineBasicString? .space rest
  | .toLineEnd, '\r' :: '\n' :: rest => multilineBasicString? .space rest
  | .toLineEnd, c :: rest => if isBlank c then multilineBasicString? .toLineEnd rest else none
  | .space, '\n' :: rest => multilineBasicString? .space rest
  | .space, '\r' :: '\n' :: rest => multilineBasicString? .space rest
  | .space, ' ' :: rest => multilineBasicString? .space rest
  | .space, '\t' :: rest => multilineBasicString? .space rest
  | _, '"' :: '"' :: '"' :: '"' :: '"' :: rest => some (['"', '"'], rest)
  | _, '"' :: '"' :: '"' :: '"' :: rest => some (['"'], rest)
  | _, '"' :: '"' :: '"' :: rest => some ([], rest)
  | _, '\\' :: 'u' :: a :: b :: c :: d :: rest => do
    let char ← charOfHex? [a, b, c, d]
    return consFirst char (← multilineBasicString? .nothing rest)
  | _, '\\' :: 'U' :: a :: b :: c :: d :: e :: f :: g :: h :: rest => do
    let char ← charOfHex? [a, b, c, d, e, f, g, h]
    return consFirst char (← multilineBasicString? .nothing rest)
  | _, '\\' :: '\n' :: rest => multilineBasicString? .space rest
  | _, '\\' :: '\r' :: '\n' :: rest => multilineBasicString? .space rest
  | _, '\\' :: c :: rest =>
    if isBlank c then multilineBasicString? .toLineEnd rest
    else do
      let char ← escaped? c
      return consFirst char (← multilineBasicString? .nothing rest)
  | _, '\n' :: rest => (multilineBasicString? .nothing rest).map (consFirst '\n')
  | _, '\r' :: '\n' :: rest => (multilineBasicString? .nothing rest).map (consFirst '\n')
  | _, c :: rest =>
    if isPlain c && c != '\\' then (multilineBasicString? .nothing rest).map (consFirst c) else none

/-- The inside of a string in triple single quotes. -/
def multilineLiteralString? : Reader (List Char)
  | [] => none
  | '\'' :: '\'' :: '\'' :: '\'' :: '\'' :: rest => some (['\'', '\''], rest)
  | '\'' :: '\'' :: '\'' :: '\'' :: rest => some (['\''], rest)
  | '\'' :: '\'' :: '\'' :: rest => some ([], rest)
  | '\n' :: rest => (multilineLiteralString? rest).map (consFirst '\n')
  | '\r' :: '\n' :: rest => (multilineLiteralString? rest).map (consFirst '\n')
  | c :: rest => if isPlain c then (multilineLiteralString? rest).map (consFirst c) else none

/-- Leaves out a line end right after the opening quotes. -/
def skipFirstLineEnd : List Char → List Char
  | '\n' :: rest => rest
  | '\r' :: '\n' :: rest => rest
  | text => text

/-- A string in any of the four forms. -/
def string? : Reader (List Char)
  | '"' :: '"' :: '"' :: rest => multilineBasicString? .nothing (skipFirstLineEnd rest)
  | '\'' :: '\'' :: '\'' :: rest => multilineLiteralString? (skipFirstLineEnd rest)
  | '"' :: rest => basicString? rest
  | '\'' :: rest => literalString? rest
  | _ => none

end Toml
end LiquidsoapHighlight
