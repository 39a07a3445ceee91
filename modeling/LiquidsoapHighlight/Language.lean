import LiquidsoapHighlight.Liquidsoap.Grammar
import LiquidsoapHighlight.Markup
import LiquidsoapHighlight.Relevance
import LiquidsoapHighlight.Scanner.Coalesce

/-!
The languages that a text can be highlighted as, by name.
-/

namespace LiquidsoapHighlight

structure Language where
  id : List Char
  displayName : List Char
  aliases : List (List Char)
  grammar : Grammar

/-- A text scanned as some language. -/
structure Highlight where
  language : List Char
  relevance : UInt32
  tokens : List Token

namespace Language

def liquidsoap : Language :=
  ⟨"liquidsoap".toList, "Liquidsoap".toList, ["liq".toList], Liquidsoap.grammar⟩

def sameIgnoringCase (a b : List Char) : Bool :=
  a.map Char.toLower == b.map Char.toLower

/-- The name is the identifier or an alias, in upper or lower case. -/
def answersTo (l : Language) (name : List Char) : Bool :=
  (l.id :: l.aliases).any (sameIgnoringCase name)

def find? (name : List Char) : Option Language :=
  if liquidsoap.answersTo name then some liquidsoap else none

def highlight (l : Language) (text : List Char) : Highlight :=
  let tokens := Token.scan l.grammar text
  ⟨l.id, Relevance.score tokens, tokens⟩

/-- The relevance of a text, if it is high enough to claim the text. -/
def detect? (l : Language) (text : List Char) : Option UInt32 :=
  let relevance := (l.highlight text).relevance
  if Relevance.isLiquidsoap relevance then some relevance else none

end Language

namespace Highlight

def hasHighlights (h : Highlight) : Bool :=
  h.tokens.any fun token => (Markup.className? token.kind).isSome

def toMarkup (h : Highlight) (classPrefix : List Char) : List Char :=
  Markup.renderAll classPrefix h.tokens

end Highlight
end LiquidsoapHighlight
