import LiquidsoapHighlight.Text.Numeral
import LiquidsoapHighlight.Token.Kind

/-!
Styled text for terminals. A styled text is written between an escape sequence that sets the
attributes and one that clears them.
-/

namespace LiquidsoapHighlight
namespace Terminal

inductive Color where
  | red
  | green
  | yellow
  | magenta
  | cyan
  | brightBlack
  | brightGreen
  | brightBlue
  | brightMagenta
  deriving DecidableEq

def Color.code : Color → Nat
  | red => 31
  | green => 32
  | yellow => 33
  | magenta => 35
  | cyan => 36
  | brightBlack => 90
  | brightGreen => 92
  | brightBlue => 94
  | brightMagenta => 95

inductive Attribute where
  | bold
  | dim
  | italic
  deriving DecidableEq

def Attribute.code : Attribute → Nat
  | bold => 1
  | dim => 2
  | italic => 3

/-- Attributes, and a color if it is not the terminal's own. -/
structure Style where
  attributes : List Attribute
  color : Option Color
  deriving DecidableEq

namespace Style

def plain : Style := ⟨[], none⟩

def ofColor (color : Color) : Style := ⟨[], some color⟩

def codes (s : Style) : List Nat :=
  s.attributes.map Attribute.code ++ s.color.toList.map Color.code

end Style

def sequence (codes : List Nat) : List Char :=
  "\x1b[".toList ++ List.intercalate [';'] (codes.map Text.decimal) ++ ['m']

def clear : List Char := sequence [0]

/-- Sets the attributes again after each place where the text itself clears them. -/
def restyle (opening : List Char) : List Char → List Char
  | '\x1b' :: '[' :: '0' :: 'm' :: rest => clear ++ opening ++ restyle opening rest
  | c :: rest => c :: restyle opening rest
  | [] => []

/-- The text in a style, if colors are on. -/
def paint (colors : Bool) (style : Style) (text : List Char) : List Char :=
  if colors && style != .plain then
    sequence style.codes ++ restyle (sequence style.codes) text ++ clear
  else text

/-- The style of each kind of token. -/
def theme : TokenKind → Style
  | .keyword => ⟨[.bold], some .magenta⟩
  | .builtinType => .ofColor .yellow
  | .identifier => .plain
  | .operator => .ofColor .cyan
  | .number => .ofColor .brightBlue
  | .duration => .ofColor .brightBlue
  | .boolean => .ofColor .brightMagenta
  | .string => .ofColor .green
  | .interpolation => ⟨[.bold], some .brightGreen⟩
  | .comment => ⟨[.italic], some .brightBlack⟩
  | .pragma => ⟨[.bold], some .yellow⟩
  | .punctuation => .plain
  | .plain => .plain

end Terminal
end LiquidsoapHighlight
