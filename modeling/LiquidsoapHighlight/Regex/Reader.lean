import LiquidsoapHighlight.Regex.Lexeme
import LiquidsoapHighlight.Regex.Normal

/-!
Reading a regular expression from its lexemes. The groups that are still open form a stack, and
each keeps the branches it has so far.
-/

namespace LiquidsoapHighlight
namespace Regex

/-- A group that is still open. Both lists have their latest element first. -/
structure Group where
  dotAll : Bool
  captures : Bool
  finished : List Regex
  items : List Regex

namespace Group

def start (dotAll captures : Bool) : Group := ⟨dotAll, captures, [], []⟩

def add (g : Group) (r : Regex) : Group :=
  { g with items := r :: g.items }

def endBranch (g : Group) : Group :=
  { g with finished := concatenation g.items.reverse :: g.finished, items := [] }

/-- The branches in order. -/
def branches (g : Group) : List Regex := g.endBranch.finished.reverse

def toRegex (g : Group) : Regex :=
  if g.captures then capture (alternation g.branches) else alternation g.branches

def dot (g : Group) : Regex :=
  oneOf (if g.dotAll then .any else (CharClass.ofChars ['\n']).complement)

/-- Repeats the last item; there has to be one. -/
def repeatLast? (g : Group) (f : Regex → Regex) : Option Group :=
  match g.items with
  | [] => none
  | r :: items => some { g with items := f r :: items }

end Group

/-- Reads lexemes into the innermost open group; the groups around it follow, inside out. The
outermost one, which no bracket opens, is the result. -/
def ofLexemes? : Group → List Group → List Lexeme → Option Group
  | g, [], [] => some g
  | _, _ :: _, [] => none
  | g, outer, .item r :: rest => ofLexemes? (g.add r) outer rest
  | g, outer, .dot :: rest => ofLexemes? (g.add g.dot) outer rest
  | g, outer, .opening dotAll :: rest =>
    ofLexemes? (.start (g.dotAll || dotAll) false) (g :: outer) rest
  | g, outer, .capturing :: rest => ofLexemes? (.start g.dotAll true) (g :: outer) rest
  | _, [], .closing :: _ => none
  | g, h :: outer, .closing :: rest => ofLexemes? (h.add g.toRegex) outer rest
  | g, outer, .bar :: rest => ofLexemes? g.endBranch outer rest
  | g, outer, .star :: rest => do ofLexemes? (← g.repeatLast? starOf) outer rest
  | g, outer, .plus :: rest => do ofLexemes? (← g.repeatLast? plusOf) outer rest
  | g, outer, .option :: rest => do ofLexemes? (← g.repeatLast? opt) outer rest

def readAll? (source : List Char) : Option Group := do
  ofLexemes? (.start false false) [] (← lexemes? none source)

def read? (source : List Char) : Option Regex := (readAll? source).map Group.toRegex

/-- A source as the inside of a group that only matches at the start of a text. -/
def anchored (source : List Char) : List Char := "\\A(?:".toList ++ source ++ [')']

/-- Reads what only matches at the start of a text. A bracket in an anchored source may close the
group around it, as long as another one opens later; a bar after it then begins branches that match
at any place, which are the second part of the result. -/
def readAnchored? : List Char → Option (Regex × Option Regex)
  | '\\' :: 'A' :: text => do
    let outermost ← readAll? text
    match outermost.branches with
    | [] => none
    | [r] => return (r, none)
    | r :: rest => return (r, some (choiceOf rest))
  | _ => none

end Regex
end LiquidsoapHighlight
