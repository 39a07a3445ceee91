import LiquidsoapHighlight.Regex.Basic

/-!
Building expressions in the form in which they are matched. A sequence in a sequence and a choice in
a choice are spliced in, and branches of a choice that all begin alike share their beginning.
Sharing may change which match is preferred: what is shared makes its own choices before the
branches do.
-/

namespace LiquidsoapHighlight
namespace Regex

/-- The expressions that follow each other in a sequence. -/
def factors : Regex → List Regex
  | empty => []
  | seq r s => factors r ++ factors s
  | r => [r]

def branches : Regex → List Regex
  | alt r s => branches r ++ branches s
  | r => [r]

def concatenation (rs : List Regex) : Regex := sequence (rs.flatMap factors)

/-- No text but the empty one can match. -/
def takesNothing : Regex → Bool
  | empty => true
  | oneOf _ => false
  | boundary => true
  | seq r s => takesNothing r && takesNothing s
  | alt r s => takesNothing r && takesNothing s
  | opt r => takesNothing r
  | star r => takesNothing r
  | plus r => takesNothing r
  | capture r => takesNothing r

/-- What takes nothing is repeated at most once. -/
def starOf (r : Regex) : Regex := if r.takesNothing then opt r else star r

def plusOf (r : Regex) : Regex := if r.takesNothing then r else plus r

/-- The characters of a class. -/
def listed? : Regex → Option CodeRanges
  | oneOf ⟨false, listed⟩ => some listed
  | oneOf ⟨true, listed⟩ => some listed.complement
  | _ => none

def isOneChar (s : CodeRanges) : Bool :=
  s.ranges.length == 1 && s.ranges.all fun range => range.1 == range.2

/-- A choice between single characters, or one between larger classes, is a class. -/
def union? (rs : List Regex) : Option Regex := do
  let sets ← rs.mapM listed?
  if sets.all isOneChar || sets.all fun s => !isOneChar s then
    some (oneOf ⟨false, (sets.foldr CodeRanges.union .empty).ordered⟩)
  else none

def choiceOf (rs : List Regex) : Regex :=
  match rs.flatMap branches with
  | [] => empty
  | [r] => r
  | r :: rest => (union? (r :: rest)).getD (choice r rest)

def isLiteral (r : Regex) : Bool := (listed? r).any isOneChar

/-- The factors of a sequence, where single characters that follow each other count as one. -/
def units : List Regex → List (List Regex)
  | [] => []
  | r :: rest =>
    match units rest with
    | (s :: more) :: others =>
      if isLiteral r && isLiteral s then (r :: s :: more) :: others
      else [r] :: (s :: more) :: others
    | others => [r] :: others

def hasCapture : Regex → Bool
  | empty => false
  | oneOf _ => false
  | boundary => false
  | seq r s => hasCapture r || hasCapture s
  | alt r s => hasCapture r || hasCapture s
  | opt r => hasCapture r
  | star r => hasCapture r
  | plus r => hasCapture r
  | capture _ => true

/-- The longest list that both lists begin with. Two capturing groups are never the same, since each
captures for itself. -/
def commonPrefix : List (List Regex) → List (List Regex) → List (List Regex)
  | u :: us, v :: vs => if u = v && !u.any hasCapture then u :: commonPrefix us vs else []
  | _, _ => []

/-- What all branches begin with, where each branch has at least two units. -/
def shared : List (List (List Regex)) → List (List Regex)
  | [] => []
  | first :: rest =>
    if (first :: rest).all fun us => 2 ≤ us.length then rest.foldl commonPrefix first else []

/-- A choice whose branches share what they all begin with. -/
def alternation (rs : List Regex) : Regex :=
  let split := (rs.flatMap branches).map fun r => units r.factors
  let start := shared split
  if split.length ≤ 1 || start.isEmpty then choiceOf rs
  else
    let rests := split.map fun us => sequence (us.drop start.length).flatten
    concatenation (start.flatten ++ [choiceOf rests])

end Regex
end LiquidsoapHighlight
