import LiquidsoapHighlight.Text.CodeRanges

/-!
Regular expressions over characters. All repetitions are greedy.
-/

namespace LiquidsoapHighlight

/-- A bracketed class: the listed characters, or all others when negated. -/
structure CharClass where
  negated : Bool
  listed : CodeRanges
  deriving DecidableEq

namespace CharClass

def contains (s : CharClass) (c : Char) : Bool :=
  s.listed.contains c != s.negated

def ofRanges (ranges : List (Char × Char)) : CharClass :=
  ⟨false, ⟨ranges.map fun range => (range.1.toNat, range.2.toNat)⟩⟩

def ofChars (cs : List Char) : CharClass :=
  ofRanges (cs.map fun c => (c, c))

/-- All characters but those of a class. -/
def complement (s : CharClass) : CharClass :=
  ⟨!s.negated, s.listed⟩

def any : CharClass := (ofChars []).complement

theorem contains_complement (s : CharClass) (c : Char) :
    s.complement.contains c = !s.contains c := by
  cases h : s.listed.contains c <;> cases hn : s.negated <;> simp [complement, contains, h, hn]

theorem contains_any (c : Char) : any.contains c = true := rfl

end CharClass

inductive Regex where
  | empty
  | oneOf (s : CharClass)
  /-- Between a word character and another character, or an end of the text. -/
  | boundary
  | seq (r s : Regex)
  /-- The first branch is preferred. -/
  | alt (r s : Regex)
  /-- Once rather than not at all. -/
  | opt (r : Regex)
  /-- As often as possible, perhaps not at all. -/
  | star (r : Regex)
  /-- As often as possible, at least once. -/
  | plus (r : Regex)
  /-- A group that captures what it matches. -/
  | capture (r : Regex)
  deriving DecidableEq

namespace Regex

def char (c : Char) : Regex := oneOf ⟨false, .singleton c⟩

def sequence : List Regex → Regex
  | [] => empty
  | [r] => r
  | r :: rest => seq r (sequence rest)

def choice : Regex → List Regex → Regex
  | r, [] => r
  | r, s :: rest => alt r (choice s rest)

def text (cs : List Char) : Regex := sequence (cs.map char)

end Regex
end LiquidsoapHighlight
