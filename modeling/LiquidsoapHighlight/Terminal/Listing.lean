import LiquidsoapHighlight.Terminal.Style
import LiquidsoapHighlight.Text.Quoted
import LiquidsoapHighlight.Token.Basic

/-!
Tokens for the terminal: the text itself in colors, or a listing with one line for each token.
-/

namespace LiquidsoapHighlight
namespace Terminal

def paintToken (colors : Bool) (token : Token) : List Char :=
  paint colors (theme token.kind) token.text

/-- The text of the tokens, each in the style of its kind. -/
def paintAll (colors : Bool) (tokens : List Token) : List Char :=
  tokens.flatMap (paintToken colors)

/-- The name of a kind, padded to the width of its column. -/
def kindColumn (kind : TokenKind) : List Char :=
  kind.displayName.toList.rightpad 24 ' '

/-- The offsets in columns of six, the kind in its style, and the quoted text. -/
def tokenLine (colors : Bool) (token : Token) : List Char :=
  (Text.decimal token.start).leftpad 6 ' ' ++ "..".toList ++
    (Text.decimal token.stop).rightpad 6 ' ' ++ [' '] ++
    paint colors (theme token.kind) (kindColumn token.kind) ++ [' '] ++ Text.quote token.text

/-- A token on one line, without padding and colors. -/
def describe (token : Token) : List Char :=
  Text.decimal token.start ++ "..".toList ++ Text.decimal token.stop ++ [' '] ++
    token.kind.displayName.toList ++ [' '] ++ Text.quote token.text

end Terminal
end LiquidsoapHighlight
