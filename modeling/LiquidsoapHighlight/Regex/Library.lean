import LiquidsoapHighlight.Regex.Match
import LiquidsoapHighlight.Regex.MinLength
import LiquidsoapHighlight.Regex.Reader

/-!
What is used of a library for regular expressions: it parses a source, measures what it has parsed,
and compiles a source to something that finds matches. The one given here reads the syntax that the
sources of the Liquidsoap grammar are written in, and some more of the same kind. Grammars may have
expressions of another library, of which no more is known than that a match ends within the text.
-/

namespace LiquidsoapHighlight

/-- What finds the first match in a text, by the number of characters up to its end. -/
inductive Matcher where
  /-- Matches only at the start of a text, as the expression does. -/
  | regex (r : Regex)
  | other (matchCount? : List Char → Option Nat)
      (count_le_length : ∀ {text n}, matchCount? text = some n → n ≤ text.length)

namespace Matcher

def matchCount? : Matcher → List Char → Option Nat
  | regex r, text => r.matchCount? text
  | other count? _, text => count? text

theorem matchCount?_le_length {m : Matcher} {text : List Char} {n : Nat}
    (h : m.matchCount? text = some n) : n ≤ text.length := by
  cases m with
  | regex r => exact Regex.matchCountAfter?_le_length h
  | other count? count_le => exact count_le h

/-- Tries an expression at the start of a text, and then another one at any place in it. -/
def orAnywhere (r s : Regex) : Matcher :=
  .other (fun text => (r.matchCount? text).or (s.firstMatchEnd? none 0 text)) fun {text n} h => by
    obtain hr | ⟨-, hs⟩ := Option.or_eq_some_iff.mp h
    · exact Regex.matchCountAfter?_le_length hr
    · have hle := Regex.firstMatchEnd?_le_length hs
      omega

end Matcher

structure RegexLibrary where
  /-- What a source is parsed to. -/
  Parsed : Type
  parse? : List Char → Option Parsed
  /-- The fewest bytes of a match, if there is such a number. -/
  minLength? : Parsed → Option Nat
  compile? : List Char → Option Matcher

namespace Regex

def compile? (source : List Char) : Option Matcher :=
  (readAnchored? source).map fun (r, unbound) => unbound.elim (.regex r) (.orAnywhere r)

def library : RegexLibrary := ⟨Regex, read?, minLength?, compile?⟩

-- A group at the start of both branches is shared, and then takes no more than it does first.
example : ["(?:a|ab)c|(?:a|ab)b", "(a|ab)c|(a|ab)b"].map (fun source =>
    (compile? (anchored source.toList)).bind (·.matchCount? "abc".toList)) =
      [some 2, some 3] := by
  decide +kernel

end Regex
end LiquidsoapHighlight
