import LiquidsoapHighlight.Text.Numeral

/-!
Integers and floating-point numbers.
-/

namespace LiquidsoapHighlight
namespace Toml

/-- Digits of a base, without the underscores that may stand between two of them. -/
def groupedDigits? (base : Nat) : List Char → Option (List Nat)
  | [] => none
  | [c] => do
    let d ← Text.digitValue? c
    if d < base then some [d] else none
  | c :: '_' :: rest => do
    let d ← Text.digitValue? c
    if d < base then return d :: (← groupedDigits? base rest) else none
  | c :: rest => do
    let d ← Text.digitValue? c
    if d < base then return d :: (← groupedDigits? base rest) else none

/-- A sign, if there is one, and what follows it. -/
def signed : List Char → Bool × List Char
  | '-' :: rest => (true, rest)
  | '+' :: rest => (false, rest)
  | text => (false, text)

/-- Decimal digits that start with a zero only if they are nothing else. -/
def wholeDigits? (text : List Char) : Option (List Nat) := do
  let digits ← groupedDigits? 10 text
  if digits.head? = some 0 ∧ digits.length ≠ 1 then none else some digits

def natural? (base : Nat) (text : List Char) : Option Int :=
  (groupedDigits? base text).map fun digits => Text.ofDigits base digits

/-- A number in decimal digits, with or without a sign. -/
def signed? (text : List Char) : Option Int :=
  let (negative, text) := signed text
  (wholeDigits? text).map fun digits =>
    let n : Int := Text.ofDigits 10 digits
    if negative then -n else n

/-- An integer of 64 bits. Only a decimal one may have a sign. -/
def integer? (text : List Char) : Option Int := do
  let n ←
    match text with
    | '0' :: 'x' :: rest => natural? 16 rest
    | '0' :: 'o' :: rest => natural? 8 rest
    | '0' :: 'b' :: rest => natural? 2 rest
    | text => signed? text
  if Int64.minValue.toInt ≤ n ∧ n ≤ Int64.maxValue.toInt then some n else none

/-- The least number that is too great for a double: halfway between the greatest double and the
power of two after it. -/
def doubleLimit : Nat := Nat.pow 2 1024 - Nat.pow 2 970

/-- A number with these digits before and after the point, times a power of ten, is rounded to a
finite double. -/
def isFinite (whole fraction : List Nat) (exponent : Int) : Bool :=
  let digits := Text.ofDigits 10 (whole ++ fraction)
  let scale := exponent - fraction.length
  let magnitude := scale + (Nat.toDigits 10 digits).length
  if digits = 0 ∨ magnitude ≤ 308 then true
  else if 310 < magnitude then false
  else digits * Nat.pow 10 scale.toNat < doubleLimit * Nat.pow 10 (-scale).toNat

/-- A number with a point, an exponent, or both, or a word for one that is not finite. A number too
great for a double is none. -/
def isFloat (text : List Char) : Bool :=
  let (negative, text) := signed text
  if text = "inf".toList ∨ text = "nan".toList then true
  else
    let isMark := fun c => c == 'e' || c == 'E'
    let mantissa := text.takeWhile fun c => !isMark c
    let afterMark := (text.dropWhile fun c => !isMark c).drop 1
    let hasMark := text.any isMark
    let whole := mantissa.takeWhile (· ≠ '.')
    let afterPoint := (mantissa.dropWhile (· ≠ '.')).drop 1
    let hasPoint := mantissa.contains '.'
    let (down, power) := signed afterMark
    let fraction? := if hasPoint then groupedDigits? 10 afterPoint else some []
    let exponent? := if hasMark then groupedDigits? 10 power else some [0]
    match wholeDigits? whole, fraction?, exponent? with
    | some whole, some fraction, some exponent =>
      let exponent : Int := Text.ofDigits 10 exponent
      (hasPoint || hasMark) &&
        (negative || isFinite whole fraction (if down then -exponent else exponent))
    | _, _, _ => false

end Toml
end LiquidsoapHighlight
