import LiquidsoapHighlight.Scanner.Basic

/-!
Joining pieces to tokens. Adjacent plain pieces are one token, and so are the comment or annotation
pieces of one construct. Constructs that merely touch stay apart.
-/

namespace LiquidsoapHighlight
namespace Piece

/-- The second piece continues the token of the first. -/
def joins (p q : Piece) : Bool :=
  p.token.kind == q.token.kind && q.token.kind.coalesces &&
    (q.token.kind == .plain || (q.construct.isSome && q.construct == p.construct))

end Piece

namespace Token

/-- Splits pieces into the longest runs in which each piece joins the one before it. -/
def groups : List Piece → List (List Piece)
  | [] => []
  | p :: rest =>
    match rest, groups rest with
    | q :: _, run :: runs => if p.joins q then (p :: run) :: runs else [p] :: run :: runs
    | _, runs => [p] :: runs

/-- The token that a run of pieces makes up. -/
def ofRun (run : List Piece) : Option Token :=
  run.head?.map fun p => ⟨p.token.kind, p.token.start, run.flatMap fun q => q.token.text⟩

def coalesce (pieces : List Piece) : List Token :=
  (groups pieces).filterMap ofRun

/-- The tokens of a text. -/
def scan (g : Grammar) (text : List Char) : List Token :=
  coalesce (Scanner.pieces g text)

end Token
end LiquidsoapHighlight
