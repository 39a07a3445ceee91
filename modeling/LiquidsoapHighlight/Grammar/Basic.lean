import LiquidsoapHighlight.Mode.Basic
import LiquidsoapHighlight.Pattern
import LiquidsoapHighlight.Token.Kind

/-!
A grammar gives each of its modes an ordered list of rules, of which the first that matches is used.
-/

namespace LiquidsoapHighlight

structure Rule where
  name : String
  pattern : Pattern
  kind : TokenKind
  transition : Transition

structure Grammar where
  rules? : Mode → Option (List Rule)

namespace Grammar

/-- A mode that scans the inside of one construct. Its last rule, which catches what no other rule
takes, gives a kind other than plain. -/
def isEnclosed (rules : List Rule) : Bool :=
  rules.getLast?.any fun rule => rule.kind != .plain

def encloses (g : Grammar) (mode : Mode) : Bool :=
  (g.rules? mode).any isEnclosed

/-- The modes that have rules. -/
def modes (g : Grammar) : List Mode :=
  Mode.all.filter fun mode => (g.rules? mode).isSome

/-- The rules that match at the start of a text, and the number of bytes that each takes. -/
def matching (rules : List Rule) (text : List Char) : List (Rule × Nat) :=
  rules.filterMap fun rule => (rule.pattern.matchLength? text).map (rule, ·)

/-- The first rule that matches at the start of a text. -/
def firstMatch? (rules : List Rule) (text : List Char) : Option (Rule × Nat) :=
  rules.findSome? fun rule => (rule.pattern.matchCount? text).map (rule, ·)

end Grammar
end LiquidsoapHighlight
