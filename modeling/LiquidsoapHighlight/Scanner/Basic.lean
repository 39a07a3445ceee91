import LiquidsoapHighlight.Grammar.Basic
import LiquidsoapHighlight.Mode.Stack
import LiquidsoapHighlight.Token.Basic

/-!
Scanning a text step by step. Each step takes the first rule of the current mode that matches, or a
single character where none does, so every text is scanned to its end.
-/

namespace LiquidsoapHighlight

/-- The state of a scan. The offset counts the bytes before the rest. -/
structure Scanner where
  offset : Nat
  rest : List Char
  stack : ModeStack

/-- What one step takes. A piece of a comment, string or annotation block names the frame of that
construct by its serial number. -/
structure Piece where
  token : Token
  construct : Option UInt32
  deriving DecidableEq

/-- What one step does: the kind of the token, its number of characters, and the transition. -/
structure Move where
  kind : TokenKind
  count : Nat
  transition : Transition
  deriving DecidableEq

namespace Grammar

/-- The move at a text that is not empty. -/
def move (g : Grammar) (mode : Mode) (text : List Char) : Move :=
  match (g.rules? mode).bind fun rules => firstMatch? rules text with
  | some (rule, count) => ⟨rule.kind, count, rule.transition⟩
  | none => ⟨.plain, 1, .stay⟩

/-- The construct of a piece: the one that it opens, or else the one that it is found in. -/
def construct? (g : Grammar) (stack : ModeStack) (t : Transition) : Option UInt32 :=
  let opens :=
    match t with
    | .push mode => g.encloses mode
    | _ => false
  if opens then some (stack.apply t).top.serial
  else if g.encloses stack.top.mode then some stack.top.serial
  else none

end Grammar

namespace Scanner

def start (text : List Char) : Scanner := ⟨0, text, .initial⟩

/-- Takes the next piece; there is none at the end of the text. -/
def next? (g : Grammar) (s : Scanner) : Option (Piece × Scanner) :=
  if s.rest.isEmpty then none
  else
    let move := g.move s.stack.top.mode s.rest
    let token : Token := ⟨move.kind, s.offset, s.rest.take move.count⟩
    some (⟨token, g.construct? s.stack move.transition⟩,
      ⟨token.stop, s.rest.drop move.count, s.stack.apply move.transition⟩)

/-- The pieces of at most the given number of steps, each with the state after it. -/
def run (g : Grammar) : Nat → Scanner → List (Piece × Scanner)
  | 0, _ => []
  | limit + 1, s =>
    match s.next? g with
    | none => []
    | some (piece, t) => (piece, t) :: run g limit t

/-- A step takes at least one character, so the text has no more steps than characters. -/
def steps (g : Grammar) (text : List Char) : List (Piece × Scanner) :=
  run g text.length (.start text)

/-- The state after some steps. -/
def stateAfter (s : Scanner) (steps : List (Piece × Scanner)) : Scanner :=
  (steps.getLast?.map Prod.snd).getD s

def pieces (g : Grammar) (text : List Char) : List Piece :=
  (steps g text).map Prod.fst

end Scanner
end LiquidsoapHighlight
