import LiquidsoapHighlight.Mode.Basic

/-!
The stack of modes that a scan is in. It is never empty: the lowest frame stays.
-/

namespace LiquidsoapHighlight

/-- An entered mode. The serial number tells apart the frames pushed in one scan. -/
structure Frame where
  mode : Mode
  depth : UInt32
  serial : UInt32
  deriving DecidableEq

structure ModeStack where
  top : Frame
  /-- The frames below, the nearest first. -/
  below : List Frame
  /-- The number of pushes so far, modulo the range of serial numbers. -/
  pushes : UInt32
  deriving DecidableEq

namespace ModeStack

def initial : ModeStack := ⟨⟨.topLevel, 0, 0⟩, [], 0⟩

/-- All frames, from the top down. -/
def frames (s : ModeStack) : List Frame := s.top :: s.below

def size (s : ModeStack) : Nat := s.frames.length

/-- The modes from the bottom to the top. -/
def modes (s : ModeStack) : List Mode := (s.frames.map Frame.mode).reverse

def push (mode : Mode) (s : ModeStack) : ModeStack :=
  ⟨⟨mode, 0, s.pushes + 1⟩, s.frames, s.pushes + 1⟩

def pop (s : ModeStack) : ModeStack :=
  match s.below with
  | [] => s
  | frame :: below => { s with top := frame, below := below }

/-- The frame nearest to the top that has the mode, or else the lowest one, and those below it. -/
def dropTo (mode : Mode) (top : Frame) : List Frame → Frame × List Frame
  | [] => (top, [])
  | frame :: below => if top.mode = mode then (top, frame :: below) else dropTo mode frame below

def popTo (mode : Mode) (s : ModeStack) : ModeStack :=
  { s with top := (dropTo mode s.top s.below).1, below := (dropTo mode s.top s.below).2 }

def nest (s : ModeStack) : ModeStack :=
  { s with top := { s.top with depth := s.top.depth + 1 } }

def unnest (s : ModeStack) : ModeStack :=
  if s.top.depth = 0 then s.pop else { s with top := { s.top with depth := s.top.depth - 1 } }

def apply (t : Transition) (s : ModeStack) : ModeStack :=
  match t with
  | .stay => s
  | .push mode => s.push mode
  | .pop => s.pop
  | .popTo mode => s.popTo mode
  | .nest => s.nest
  | .unnest => s.unnest

end ModeStack
end LiquidsoapHighlight
