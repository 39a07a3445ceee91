import LiquidsoapHighlight.Regex.Basic
import LiquidsoapHighlight.Text.Blank

/-!
The written form of a regular expression as a list of lexemes. A bracketed class is one lexeme.
-/

namespace LiquidsoapHighlight
namespace Regex

inductive Lexeme where
  /-- An expression that needs no further reading. -/
  | item (r : Regex)
  /-- Any character, or any but the newline, as the group around it says. -/
  | dot
  /-- The start of a group that captures nothing. A dot in it takes the newline too if `dotAll`. -/
  | opening (dotAll : Bool)
  /-- The start of a capturing group. -/
  | capturing
  | closing
  | bar
  | star
  | plus
  | option
  deriving DecidableEq

/-- The character that a backslash and this one stand for. Letters and digits have no literal use
after a backslash, apart from the control characters. -/
def escaped? (c : Char) : Option Char :=
  match c with
  | 'n' => some '\n'
  | 't' => some '\t'
  | 'r' => some '\r'
  | 'f' => some '\x0c'
  | 'v' => some '\x0b'
  | 'a' => some '\x07'
  | '<' => none
  | '>' => none
  | c => if c.toNat < 0x80 && !c.isAlphanum then some c else none

/-- The expression that a backslash and this character stand for. -/
def escape? (c : Char) : Option Regex :=
  match c with
  | 's' => some (.oneOf ⟨false, Text.blank⟩)
  | 'b' => some .boundary
  | c => (escaped? c).map .char

/-- The lexeme of a single character before another one. A bracket or a repetition before a question
mark begins a form that is not read. -/
def sign? (c : Char) (next : Option Char) : Option Lexeme :=
  if next = some '?' && ['(', '*', '+', '?'].contains c then none
  else
    match c with
    | '\\' => none
    | '^' => none
    | '$' => none
    | '{' => none
    | '(' => some .capturing
    | ')' => some .closing
    | '|' => some .bar
    | '*' => some .star
    | '+' => some .plus
    | '?' => some .option
    | '.' => some .dot
    | c => some (.item (.char c))

/-- What the last member of an open class is. -/
inductive LastMember where
  /-- None, or one that a dash after it does not extend. -/
  | closed
  /-- A character, not listed yet, that a dash may extend to a range. -/
  | char (c : Char)
  /-- Such a character and the dash after it. -/
  | rangeFrom (c : Char)
  /-- A set of characters, which no dash can extend. -/
  | set

/-- A bracketed class that is still open. -/
structure OpenClass where
  negated : Bool
  listed : CodeRanges
  last : LastMember
  /-- Only dashes have been read. -/
  leading : Bool

namespace OpenClass

def start (negated : Bool) : OpenClass := ⟨negated, .empty, .closed, true⟩

/-- Everything read so far as members. -/
def members (s : OpenClass) : CodeRanges :=
  match s.last with
  | .char c => s.listed.union (.singleton c)
  | _ => s.listed

def close (s : OpenClass) : CharClass := ⟨s.negated, s.members.ordered⟩

/-- Lists members that no dash extends. -/
def add (s : OpenClass) (set : CodeRanges) (last : LastMember) : OpenClass :=
  { s with listed := s.members.union set, last := last, leading := false }

/-- A character by itself, or the upper end of a range. -/
def addChar? (s : OpenClass) (c : Char) : Option OpenClass :=
  match s.last with
  | .rangeFrom low =>
    if low ≤ c then some (s.add ⟨[(low.toNat, c.toNat)]⟩ .closed) else none
  | _ => some (s.add .empty (.char c))

def addSet? (s : OpenClass) (set : CodeRanges) : Option OpenClass :=
  match s.last with
  | .rangeFrom _ => none
  | _ => some (s.add set .set)

/-- A dash between two members. -/
def addDash? (s : OpenClass) : Option OpenClass :=
  match s.last with
  | .char c => some { s with last := .rangeFrom c }
  | .closed => some (s.add (.singleton '-') .closed)
  | _ => none

/-- A dash before all members. -/
def addLeadingDash (s : OpenClass) : OpenClass :=
  { s.add (.singleton '-') .closed with leading := true }

/-- A character or a set of characters, as a backslash and this character stand for it. -/
def addEscape? (s : OpenClass) (c : Char) : Option OpenClass :=
  match c with
  | 's' => s.addSet? Text.blank
  | c => (escaped? c).bind s.addChar?

/-- A single character before another one. A doubled dash, ampersand or tilde would be an operation
on classes, which is not read. -/
def addSign? (s : OpenClass) (c : Char) (next : Option Char) : Option OpenClass :=
  match c with
  | '\\' => none
  | '[' => none
  | '-' =>
    if s.leading then some s.addLeadingDash else if next = some '-' then none else s.addDash?
  | '&' => if next = some '&' then none else s.addChar? '&'
  | '~' => if next = some '~' then none else s.addChar? '~'
  | c => s.addChar? c

end OpenClass

/-- Reads the lexemes of a text; the class that is open, if one is, comes first. -/
def lexemes? : Option OpenClass → List Char → Option (List Lexeme)
  | none, [] => some []
  | some _, [] => none
  | none, '\\' :: c :: rest => do return .item (← escape? c) :: (← lexemes? none rest)
  | none, '(' :: '?' :: ':' :: rest => (lexemes? none rest).map (.opening false :: ·)
  | none, '(' :: '?' :: 's' :: ':' :: rest => (lexemes? none rest).map (.opening true :: ·)
  | none, '[' :: '^' :: rest => lexemes? (some (.start true)) rest
  | none, '[' :: rest => lexemes? (some (.start false)) rest
  | none, c :: rest => do return (← sign? c rest.head?) :: (← lexemes? none rest)
  | some s, '\\' :: c :: rest => do lexemes? (some (← s.addEscape? c)) rest
  | some s, '-' :: ']' :: rest =>
    (lexemes? none rest).map (.item (.oneOf (s.add (.singleton '-') .closed).close) :: ·)
  | some s, ']' :: rest =>
    if s.leading && s.listed.ranges.isEmpty then
      lexemes? (some (s.add (.singleton ']') .closed)) rest
    else (lexemes? none rest).map (.item (.oneOf s.close) :: ·)
  | some s, c :: rest => do lexemes? (some (← s.addSign? c rest.head?)) rest

end Regex
end LiquidsoapHighlight
