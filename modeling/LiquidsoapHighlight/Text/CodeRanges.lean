/-!
Sets of characters, given by ranges of code points.
-/

namespace LiquidsoapHighlight

/-- Inclusive ranges of code points. -/
structure CodeRanges where
  ranges : List (Nat × Nat)
  deriving DecidableEq

namespace CodeRanges

def empty : CodeRanges := ⟨[]⟩

def singleton (c : Char) : CodeRanges := ⟨[(c.toNat, c.toNat)]⟩

def union (s t : CodeRanges) : CodeRanges := ⟨s.ranges ++ t.ranges⟩

/-- Adds a range to ranges in order, joined with those that it meets. -/
def insertRange (low high : Nat) : List (Nat × Nat) → List (Nat × Nat)
  | [] => [(low, high)]
  | range :: rest =>
    if high + 1 < range.1 then (low, high) :: range :: rest
    else if range.2 + 1 < low then range :: insertRange low high rest
    else insertRange (min low range.1) (max high range.2) rest

/-- The same characters by ranges in order, none of which meets the next. -/
def ordered (s : CodeRanges) : CodeRanges :=
  ⟨s.ranges.foldr (fun range => insertRange range.1 range.2) []⟩

/-- The code point of the next character, which is no surrogate. -/
def nextCode (code : Nat) : Nat := if code = 0xd7ff then 0xe000 else code + 1

def previousCode (code : Nat) : Nat := if code = 0xe000 then 0xd7ff else code - 1

/-- The ranges of the characters from a code point on that are in none of these ranges, which are in
order. -/
def between (low : Nat) : List (Nat × Nat) → List (Nat × Nat)
  | [] => if low ≤ 0x10ffff then [(low, 0x10ffff)] else []
  | range :: rest =>
    if low < range.1 then (low, previousCode range.1) :: between (nextCode range.2) rest
    else between (nextCode range.2) rest

/-- All other characters. -/
def complement (s : CodeRanges) : CodeRanges := ⟨between 0 s.ordered.ranges⟩

def containsCode (s : CodeRanges) (code : Nat) : Bool :=
  s.ranges.any fun range => range.1 ≤ code && code ≤ range.2

def contains (s : CodeRanges) (c : Char) : Bool :=
  s.containsCode c.toNat

end CodeRanges
end LiquidsoapHighlight
