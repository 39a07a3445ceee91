import LiquidsoapHighlight.Regex.Library
import LiquidsoapHighlight.Word

/-!
What a rule looks for at the start of a text. A match of length zero counts as none.
-/

namespace LiquidsoapHighlight

/-- A compiled regular expression: its source, what finds its matches, and the fewest bytes of a
match, as far as they are known. -/
structure Expression where
  source : List Char
  matcher : Matcher
  minLength? : Option Nat

namespace Expression

/-- Compiles a source inside a group that binds it to the start of a text. It is measured without
this group, which fails where only the group makes it whole. -/
def compile? (library : RegexLibrary) (source : List Char) : Option Expression := do
  let matcher ← library.compile? (Regex.anchored source)
  return ⟨source, matcher, (library.parse? source).bind library.minLength?⟩

def ofSource? (source : List Char) : Option Expression := compile? Regex.library source

/-- The number of characters up to the end of the match. It includes those that the match leaves out
at the start, if it is not bound there. -/
def matchCount? (e : Expression) (text : List Char) : Option Nat :=
  e.matcher.matchCount? text

/-- The expression that is matched, if that is all there is to the matcher. -/
def regex? (e : Expression) : Option Regex :=
  match e.matcher with
  | .regex r => some r
  | .other _ _ => none

end Expression

/-- A regular expression with a text that reads as it. -/
structure WrittenRegex where
  source : List Char
  regex : Regex
  readAnchored_source : Regex.readAnchored? (Regex.anchored source) = some (regex, none)

namespace WrittenRegex

def toExpression (w : WrittenRegex) : Expression :=
  ⟨w.source, .regex w.regex, (Regex.read? w.source).bind Regex.minLength?⟩

instance : Coe WrittenRegex Expression := ⟨toExpression⟩

theorem ofSource?_source (w : WrittenRegex) : Expression.ofSource? w.source = some w := by
  simp [Expression.ofSource?, Expression.compile?, Regex.library, Regex.compile?,
    w.readAnchored_source, toExpression]

end WrittenRegex

inductive Pattern where
  | literal (text : List Char)
  /-- The first of the alternatives that starts the text. -/
  | oneOf (alternatives : List (List Char))
  /-- The whole word at the start of the text, if it is listed. -/
  | keywords (words : List (List Char))
  /-- A regular expression. If bounded, no word character may follow the match. -/
  | expression (e : Expression) (bounded : Bool)
  | anyChar

namespace Pattern

/-- The number of characters that the pattern takes, zero included. -/
def candidate? : Pattern → List Char → Option Nat
  | literal lit, text => if lit.isPrefixOf text then some lit.length else none
  | oneOf alternatives, text =>
    (alternatives.find? fun alternative => alternative.isPrefixOf text).map List.length
  | keywords words, text =>
    if words.contains (Word.run text) then some (Word.run text).length else none
  | expression e bounded, text =>
    (e.matchCount? text).filter fun count =>
      !(bounded && (text.drop count).head?.any Word.isContinue)
  | anyChar, text => if text.isEmpty then none else some 1

/-- The number of characters that the pattern takes, at least one. -/
def matchCount? (p : Pattern) (text : List Char) : Option Nat :=
  (p.candidate? text).filter (0 < ·)

/-- The number of bytes that the pattern takes, at least one. -/
def matchLength? (p : Pattern) (text : List Char) : Option Nat :=
  (p.matchCount? text).map fun count => Text.byteLength (text.take count)

/-- The fewest bytes that the pattern can take. -/
def minLength? : Pattern → Option Nat
  | literal lit => some (Text.byteLength lit)
  | oneOf alternatives => (alternatives.map Text.byteLength).min?
  | keywords words => (words.map Text.byteLength).min?
  | expression e _ => e.minLength?
  | anyChar => some 1

def isCatchAll : Pattern → Bool
  | anyChar => true
  | _ => false

end Pattern
end LiquidsoapHighlight
