import LiquidsoapHighlight.Token.Basic

/-!
Tokens as HTML. Each token of a kind that has a class is wrapped in a span; the characters that have
a meaning in HTML are written as entities.
-/

namespace LiquidsoapHighlight
namespace Markup

/-- The entity of a character that cannot stand for itself. -/
def entity? (c : Char) : Option (List Char) :=
  match c with
  | '&' => some "&amp;".toList
  | '<' => some "&lt;".toList
  | '>' => some "&gt;".toList
  | '"' => some "&quot;".toList
  | _ => none

def escapeChar (c : Char) : List Char := (entity? c).getD [c]

def escape (text : List Char) : List Char := text.flatMap escapeChar

/-- The class of a kind. Plain text has none. -/
def className? : TokenKind → Option (List Char)
  | .keyword => some "keyword".toList
  | .builtinType => some "type".toList
  | .identifier => some "variable".toList
  | .operator => some "operator".toList
  | .number => some "number".toList
  | .duration => some "number".toList
  | .boolean => some "literal".toList
  | .string => some "string".toList
  | .interpolation => some "subst".toList
  | .comment => some "comment".toList
  | .pragma => some "meta".toList
  | .punctuation => some "punctuation".toList
  | .plain => none

def openSpan (classPrefix className : List Char) : List Char :=
  "<span class=\"".toList ++ escape classPrefix ++ className ++ "\">".toList

def closeSpan : List Char := "</span>".toList

def render (classPrefix : List Char) (token : Token) : List Char :=
  match className? token.kind with
  | some className => openSpan classPrefix className ++ escape token.text ++ closeSpan
  | none => escape token.text

def renderAll (classPrefix : List Char) (tokens : List Token) : List Char :=
  tokens.flatMap (render classPrefix)

end Markup
end LiquidsoapHighlight
