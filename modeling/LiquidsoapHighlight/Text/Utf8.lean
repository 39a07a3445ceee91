/-!
Reading bytes as UTF-8. A sequence of bytes that cannot be continued to a character is one invalid
unit, and reading goes on with the byte that broke it.
-/

namespace LiquidsoapHighlight
namespace Utf8

/-- A character that has begun: the value of its bits so far, the bytes still owed, and the range
that the next byte has to be in. -/
structure Pending where
  bits : Nat
  owed : Nat
  low : Nat
  high : Nat
  deriving DecidableEq

/-- A character, or none for an invalid sequence of bytes. -/
abbrev Item := Option Char

/-- Reads a byte between characters. -/
def begin (byte : UInt8) : List Item × Option Pending :=
  let b := byte.toNat
  if b < 0x80 then ([some (Char.ofNat b)], none)
  else if b < 0xc2 then ([none], none)
  else if b < 0xe0 then ([], some ⟨b - 0xc0, 1, 0x80, 0xbf⟩)
  else if b < 0xf0 then
    let low := if b = 0xe0 then 0xa0 else 0x80
    let high := if b = 0xed then 0x9f else 0xbf
    ([], some ⟨b - 0xe0, 2, low, high⟩)
  else if b < 0xf5 then
    let low := if b = 0xf0 then 0x90 else 0x80
    let high := if b = 0xf4 then 0x8f else 0xbf
    ([], some ⟨b - 0xf0, 3, low, high⟩)
  else ([none], none)

def step (pending : Option Pending) (byte : UInt8) : List Item × Option Pending :=
  match pending with
  | none => begin byte
  | some p =>
    if p.low ≤ byte.toNat && byte.toNat ≤ p.high then
      let bits := p.bits * 64 + (byte.toNat - 0x80)
      if p.owed ≤ 1 then ([some (Char.ofNat bits)], none)
      else ([], some ⟨bits, p.owed - 1, 0x80, 0xbf⟩)
    else
      let (items, next) := begin byte
      (none :: items, next)

def items : Option Pending → List UInt8 → List Item
  | none, [] => []
  | some _, [] => [none]
  | pending, byte :: rest =>
    let (now, next) := step pending byte
    now ++ items next rest

/-- The text of bytes that are UTF-8 throughout. -/
def decode? (bytes : List UInt8) : Option (List Char) :=
  (items none bytes).mapM id

/-- The text of any bytes, with a replacement character for each invalid sequence. -/
def decodeLossy (bytes : List UInt8) : List Char :=
  (items none bytes).map fun item => item.getD '\ufffd'

def encode (text : List Char) : List UInt8 :=
  text.flatMap String.utf8EncodeChar

end Utf8
end LiquidsoapHighlight
