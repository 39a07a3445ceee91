import LiquidsoapHighlight.Text.Width
import LiquidsoapHighlight.Token.Kind

/-!
A token is a classified stretch of a text, placed by its byte offset.
-/

namespace LiquidsoapHighlight

structure Token where
  kind : TokenKind
  start : Nat
  text : List Char
  deriving DecidableEq

namespace Token

def length (t : Token) : Nat := Text.byteLength t.text

/-- The offset just after the token. -/
def stop (t : Token) : Nat := t.start + t.length

def isEmpty (t : Token) : Bool := t.start == t.stop

end Token
end LiquidsoapHighlight
