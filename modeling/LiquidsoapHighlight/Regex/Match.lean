import LiquidsoapHighlight.Regex.Basic
import LiquidsoapHighlight.Text.WordChar

/-!
Matching a regular expression at the start of a text. All ways to match are followed side by side,
one character at a time, as a list of threads in order of preference. At each place in the text a
choice point is passed once only: a way that comes back to it without having taken a character ends
there, also if the choice would now be made differently.
-/

namespace LiquidsoapHighlight
namespace Regex

/-- The place of a subexpression: the turns on the way to it, the last one first, each of them false
for a first operand and true for a second. -/
abbrev Address := List Bool

inductive Task where
  | start (a : Address) (r : Regex)
  /-- A round of the repetition at the address is over, and another one may follow. -/
  | again (a : Address) (r : Regex)
  deriving DecidableEq

/-- What is left to be matched, in order. -/
abbrev Thread := List Task

/-- What is known at a place in the text. -/
structure Frontier where
  /-- The choice points that have been passed. -/
  passed : List Address
  /-- The threads that go on if the next character is in a class, the preferred one last. -/
  waiting : List (CharClass × Thread)
  /-- The whole expression can end here. Threads of lower preference are left out. -/
  accepted : Bool
  deriving DecidableEq

namespace Frontier

def empty : Frontier := ⟨[], [], false⟩

def accept (f : Frontier) : Frontier := { f with accepted := true }

def wait (s : CharClass) (t : Thread) (f : Frontier) : Frontier :=
  if f.accepted then f else { f with waiting := (s, t) :: f.waiting }

/-- Goes on past a choice point, if it has not been passed yet. -/
def pass (a : Address) (next : Frontier → Frontier) (f : Frontier) : Frontier :=
  if f.passed.contains a then f else next { f with passed := a :: f.passed }

/-- The threads after the next character. -/
def advance (f : Frontier) (c : Char) : List Thread :=
  f.waiting.reverse.filterMap fun (s, t) => if s.contains c then some t else none

end Frontier

/-- Rounds of a repetition, of which the first has to be made. A second round that takes nothing
either comes back to the same choice point, and ends there. -/
def repeated (a : Address) (round : (Frontier → Frontier) → Frontier → Frontier)
    (leave : Frontier → Frontier) : Frontier → Frontier :=
  round (Frontier.pass a fun f => leave (round id f))

/-- Follows an expression up to the next character. What comes after it is given twice: as tasks for
the time after that character, and as a step for the case that it takes none. -/
def explore (atBoundary : Bool) :
    Regex → Address → Thread → (Frontier → Frontier) → Frontier → Frontier
  | empty, _, _, leave, f => leave f
  | oneOf s, _, t, _, f => f.wait s t
  | boundary, _, _, leave, f => if atBoundary then leave f else f
  | seq r s, a, t, leave, f =>
    explore atBoundary r (false :: a) (.start (true :: a) s :: t)
      (explore atBoundary s (true :: a) t leave) f
  | alt r s, a, t, leave, f =>
    f.pass a fun f =>
      explore atBoundary s (true :: a) t leave (explore atBoundary r (false :: a) t leave f)
  | opt r, a, t, leave, f =>
    f.pass a fun f => leave (explore atBoundary r (false :: a) t leave f)
  | star r, a, t, leave, f =>
    f.pass (true :: a) fun f =>
      leave (repeated a (explore atBoundary r (false :: a) (.again a r :: t)) leave f)
  | plus r, a, t, leave, f =>
    repeated a (explore atBoundary r (false :: a) (.again a r :: t)) leave f
  | capture r, a, t, leave, f => explore atBoundary r (false :: a) t leave f

/-- Follows the tasks of a thread up to the next character. -/
def Thread.explore (atBoundary : Bool) : Thread → Frontier → Frontier
  | [], f => f.accept
  | .start a r :: t, f => r.explore atBoundary a t (Thread.explore atBoundary t) f
  | .again a r :: t, f =>
    f.pass a fun f =>
      Thread.explore atBoundary t (r.explore atBoundary (false :: a) (.again a r :: t) id f)

def frontier (atBoundary : Bool) (threads : List Thread) : Frontier :=
  threads.foldl (fun f t => Thread.explore atBoundary t f) .empty

def isBoundary (before after : Option Char) : Bool :=
  before.any Text.wordChars.contains != after.any Text.wordChars.contains

/-- Follows threads through a text. The count is that of the characters taken before, and the best
match so far is the one of the highest preference that has been found. -/
def follow (threads : List Thread) (before : Option Char) (count : Nat) (best : Option Nat) :
    List Char → Option Nat
  | [] => if (frontier (isBoundary before none) threads).accepted then some count else best
  | c :: rest =>
    let f := frontier (isBoundary before (some c)) threads
    let best := if f.accepted then some count else best
    if f.waiting.isEmpty then best else follow (f.advance c) (some c) (count + 1) best rest

/-- The number of characters of the preferred match at the start of a text that comes after the
given character. -/
def matchCountAfter? (before : Option Char) (r : Regex) (text : List Char) : Option Nat :=
  follow [[.start [] r]] before 0 none text

def matchCount? (r : Regex) (text : List Char) : Option Nat :=
  r.matchCountAfter? none text

/-- The number of characters up to the end of the first match in a text. -/
def firstMatchEnd? (r : Regex) (before : Option Char) (skipped : Nat) :
    List Char → Option Nat
  | [] => (r.matchCountAfter? before []).map (skipped + ·)
  | c :: rest =>
    match r.matchCountAfter? before (c :: rest) with
    | some count => some (skipped + count)
    | none => firstMatchEnd? r (some c) (skipped + 1) rest

theorem follow_le_length (threads : List Thread) (before : Option Char) (count : Nat)
    (best : Option Nat) (text : List Char)
    (hb : ∀ n, best = some n → n ≤ count + text.length) (n : Nat)
    (h : follow threads before count best text = some n) : n ≤ count + text.length := by
  induction text generalizing threads before count best with
  | nil =>
      simp only [follow] at h
      split at h
      · obtain rfl := Option.some.inj h
        exact Nat.le_add_right _ _
      · exact hb n h
  | cons c rest ih =>
      -- The match known so far, whether it ends here or came from further back, fits.
      have hnow : ∀ accepted : Bool, ∀ m, (if accepted then some count else best) = some m →
          m ≤ count + (c :: rest).length := by
        intro accepted m hm
        cases accepted with
        | true =>
            obtain rfl := Option.some.inj hm
            exact Nat.le_add_right _ _
        | false => exact hb m hm
      simp only [follow] at h
      split at h
      · exact hnow _ n h
      · have hshift : count + (c :: rest).length = count + 1 + rest.length := by
          rw [List.length_cons]
          omega
        rw [hshift] at hnow ⊢
        exact ih _ _ _ _ (hnow _) h

theorem matchCountAfter?_le_length {before : Option Char} {r : Regex} {text : List Char}
    {n : Nat} (h : r.matchCountAfter? before text = some n) : n ≤ text.length := by
  have hle := follow_le_length [[.start [] r]] before 0 none text (by simp) n h
  omega

theorem firstMatchEnd?_le_length {r : Regex} {before : Option Char} {skipped : Nat}
    {text : List Char} {n : Nat} (h : r.firstMatchEnd? before skipped text = some n) :
    n ≤ skipped + text.length := by
  induction text generalizing before skipped with
  | nil =>
      obtain ⟨count, hc, rfl⟩ := Option.map_eq_some_iff.mp h
      exact Nat.add_le_add_left (matchCountAfter?_le_length hc) skipped
  | cons c rest ih =>
      simp only [firstMatchEnd?] at h
      split at h
      · next count hc =>
          obtain rfl := Option.some.inj h
          exact Nat.add_le_add_left (matchCountAfter?_le_length hc) skipped
      · have hle := ih h
        rw [List.length_cons]
        omega

end Regex
end LiquidsoapHighlight
