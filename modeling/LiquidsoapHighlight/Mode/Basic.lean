/-!
The modes of scanning, and what a rule does to the stack of modes.
-/

namespace LiquidsoapHighlight

inductive Mode where
  | topLevel
  | lineComment
  | blockComment
  | doubleString
  | singleString
  /-- A hole in a double-quoted string. -/
  | doubleInterpolation
  /-- A hole in a single-quoted string. -/
  | singleInterpolation
  /-- Braces inside a hole. -/
  | braces
  | annotationBlock
  deriving DecidableEq

namespace Mode

def all : List Mode :=
  [topLevel, lineComment, blockComment, doubleString, singleString, doubleInterpolation,
    singleInterpolation, braces, annotationBlock]

def name : Mode → String
  | topLevel => "top-level"
  | lineComment => "line-comment"
  | blockComment => "block-comment"
  | doubleString => "double-string"
  | singleString => "single-string"
  | doubleInterpolation => "double-interpolation"
  | singleInterpolation => "single-interpolation"
  | braces => "braces"
  | annotationBlock => "annotation-block"

theorem mem_all (mode : Mode) : mode ∈ all := by
  cases mode <;> decide

end Mode

inductive Transition where
  | stay
  | push (mode : Mode)
  | pop
  /-- Pops down to the nearest frame of the mode. -/
  | popTo (mode : Mode)
  /-- One level deeper in the same frame. -/
  | nest
  /-- One level up, or out of the frame. -/
  | unnest
  deriving DecidableEq

/-- The mode that a transition leads to by name. -/
def Transition.target? : Transition → Option Mode
  | .push mode => some mode
  | .popTo mode => some mode
  | _ => none

end LiquidsoapHighlight
