import LiquidsoapHighlight.Text.GraphemeExtend
import LiquidsoapHighlight.Text.Numeral
import LiquidsoapHighlight.Text.Printable

/-!
Quoted text, as listings show it: in double quotes, with the characters that a terminal would not
show as they are written as escapes.
-/

namespace LiquidsoapHighlight
namespace Text

def codeEscape (c : Char) : List Char :=
  "\\u\x7b".toList ++ hexadecimal c.toNat ++ ['}']

def quoteChar (c : Char) : List Char :=
  match c with
  | '"' => ['\\', '"']
  | '\\' => ['\\', '\\']
  | '\t' => ['\\', 't']
  | '\n' => ['\\', 'n']
  | '\r' => ['\\', 'r']
  | '\x00' => ['\\', '0']
  | c => if isPrintable c && !graphemeExtenders.contains c then [c] else codeEscape c

def quote (text : List Char) : List Char :=
  '"' :: text.flatMap quoteChar ++ ['"']

end Text
end LiquidsoapHighlight
