import Mathlib.Algebra.GroupWithZero.Nat
import Mathlib.Order.Monotone.Basic
import LiquidsoapHighlight.Proofs.Mode.Stack
import LiquidsoapHighlight.Proofs.Scanner.Trace

/-!
Frames told apart by the step that pushed them. As long as the serial numbers do not wrap around,
they tell apart the same frames, in whichever state of the scan each of them is found.
-/

namespace LiquidsoapHighlight
namespace Scanner

/-- Where a frame comes from: it is there from the start, or a step has pushed it. -/
inductive Origin where
  | lowest
  | pushedBy (step : Nat)
  deriving DecidableEq

section
variable (g : Grammar) (text : List Char)

/-- The step has pushed a frame. -/
def Pushes (step : Nat) : Prop :=
  (after g text step).stack.size < (after g text (step + 1)).stack.size

instance (step : Nat) : Decidable (Pushes g text step) := Nat.decLt _ _

/-- The origins of the frames after some steps, from the top down. -/
def origins : Nat → List Origin
  | 0 => [.lowest]
  | step + 1 =>
    if Pushes g text step then .pushedBy step :: origins step
    else (origins step).drop
      ((after g text step).stack.size - (after g text (step + 1)).stack.size)

/-- The frame of an enclosing mode that the piece of a step opens, or else continues or closes. -/
def owner? (step : Nat) : Option Origin :=
  if Pushes g text step ∧ g.encloses (after g text (step + 1)).stack.top.mode then
    some (.pushedBy step)
  else if g.encloses (after g text step).stack.top.mode then (origins g text step).head?
  else none

/-- The serial number of the frame with this origin. -/
def serialOf : Origin → UInt32
  | .lowest => 0
  | .pushedBy step => (after g text (step + 1)).stack.pushes

end

variable {g : Grammar} {text : List Char} {step : Nat}

theorem next?_after {p : Piece} {t : Scanner} (h : (steps g text)[step]? = some (p, t)) :
    (after g text step).next? g = some (p, t) ∧ after g text (step + 1) = t := by
  have htake : (steps g text).take (step + 1) = (steps g text).take step ++ [(p, t)] := by
    rw [List.take_add_one, h, Option.toList_some]
  have htrace := (trace_take_drop g text (step + 1)).1
  rw [htake, trace_append] at htrace
  refine ⟨?_, ?_⟩
  · cases htrace.2 with
    | step hn _ => exact hn
  · rw [after, htake, stateAfter_append, stateAfter_cons, stateAfter_nil]

theorem after_of_length_le (h : (steps g text).length ≤ step) :
    after g text (step + 1) = after g text step := by
  rw [after, after, List.take_of_length_le h, List.take_of_length_le (by omega)]

/-- What a step does to the stack: nothing after the last one, or what a transition does. -/
theorem stack_after_succ (g : Grammar) (text : List Char) (step : Nat) :
    (after g text (step + 1)).stack = (after g text step).stack ∨
      step < (steps g text).length ∧
        ∃ t, (after g text (step + 1)).stack = (after g text step).stack.apply t := by
  by_cases hl : step < (steps g text).length
  · obtain ⟨hn, he⟩ := next?_after (List.getElem?_eq_getElem hl)
    obtain ⟨_, move, _, _, hs⟩ := move_of_next? hn
    exact .inr ⟨hl, move.transition, by rw [he, hs]⟩
  · rw [after_of_length_le (Nat.le_of_not_lt hl)]
    exact .inl rfl

/-- The lowest frame is there throughout. -/
theorem lowest_next {entry : Mode × UInt32} {s t : Scanner} {p : Piece}
    (h : [entry] <:+ s.stack.entries) (hn : s.next? g = some (p, t)) :
    [entry] <:+ t.stack.entries := by
  obtain ⟨_, move, _, _, rfl⟩ := move_of_next? hn
  exact ModeStack.lowest_apply move.transition h

/-- A step pushes a frame of the next serial number, or it leaves some of the frames. -/
theorem pushes_or_keeps (g : Grammar) (text : List Char) (step : Nat) :
    (Pushes g text step ∧ step < (steps g text).length ∧
      ∃ mode, (after g text (step + 1)).stack = (after g text step).stack.push mode) ∨
    (¬ Pushes g text step ∧
      (after g text (step + 1)).stack.serials <:+ (after g text step).stack.serials ∧
      (after g text (step + 1)).stack.pushes = (after g text step).stack.pushes) := by
  obtain hs | ⟨hl, t, hs⟩ := stack_after_succ g text step
  · refine .inr ⟨?_, ?_⟩
    · rw [Pushes, hs]
      exact Nat.lt_irrefl _
    · rw [hs]
      exact ⟨List.suffix_refl _, rfl⟩
  · by_cases ht : ∃ mode, t = .push mode
    · obtain ⟨mode, rfl⟩ := ht
      refine .inl ⟨?_, hl, mode, hs⟩
      rw [Pushes, hs]
      exact Nat.lt_succ_self _
    · have hnot : ∀ mode, t ≠ .push mode := fun mode he => ht ⟨mode, he⟩
      refine .inr ⟨?_, ?_⟩
      · rw [Pushes, hs]
        exact Nat.not_lt.mpr (ModeStack.size_apply_le hnot _)
      · obtain ⟨hsuffix, hpushes⟩ := ModeStack.apply_keeps hnot (after g text step).stack
        rw [hs]
        exact ⟨ModeStack.serials_suffix hsuffix, hpushes⟩

/-- The frames on the stack have the serial numbers of their origins. -/
theorem serials_after (g : Grammar) (text : List Char) (step : Nat) :
    (after g text step).stack.serials = (origins g text step).map (serialOf g text) := by
  induction step with
  | zero => rfl
  | succ step ih =>
      obtain ⟨hp, _, mode, hs⟩ | ⟨hp, hsuffix, _⟩ := pushes_or_keeps g text step
      · rw [origins, if_pos hp, List.map_cons, ← ih, hs, serialOf, hs]
        rfl
      · rw [origins, if_neg hp, List.map_drop, ← ih, ← ModeStack.length_serials,
          ← ModeStack.length_serials]
        exact List.suffix_iff_eq_drop.mp hsuffix

theorem pushes_after_le (g : Grammar) (text : List Char) (step : Nat) :
    (after g text step).stack.pushes.toNat ≤ step := by
  induction step with
  | zero => exact Nat.le_refl 0
  | succ step ih =>
      obtain ⟨_, _, mode, hs⟩ | ⟨_, _, hpushes⟩ := pushes_or_keeps g text step
      · rw [hs]
        exact Nat.le_trans (ModeStack.toNat_add_one_le _) (Nat.succ_le_succ ih)
      · rw [hpushes]
        exact Nat.le_succ_of_le ih

theorem length_steps_le (g : Grammar) (text : List Char) :
    (steps g text).length ≤ Text.byteLength text := by
  have hle := (trace_steps g text).length_add_le
  exact (Nat.le_of_add_right_le hle).trans (Text.length_le_byteLength text)

/-- No text of fewer bytes than there are serial numbers has so many steps that they wrap around. -/
theorem pushes_after_succ (h : Text.byteLength text < 2 ^ 32) (hp : Pushes g text step) :
    (after g text (step + 1)).stack.pushes.toNat =
      (after g text step).stack.pushes.toNat + 1 := by
  obtain ⟨_, hl, mode, hs⟩ | ⟨hnot, _⟩ := pushes_or_keeps g text step
  · have hbytes := length_steps_le g text
    have hle := pushes_after_le g text step
    rw [hs]
    exact ModeStack.toNat_add_one (by omega)
  · exact absurd hp hnot

theorem pushes_monotone (g : Grammar) (h : Text.byteLength text < 2 ^ 32) :
    Monotone fun step => (after g text step).stack.pushes.toNat := by
  apply monotone_nat_of_le_succ
  intro step
  obtain ⟨hp, _⟩ | ⟨_, _, hpushes⟩ := pushes_or_keeps g text step
  · rw [pushes_after_succ h hp]
    exact Nat.le_succ _
  · rw [hpushes]

/-- The frame is the lowest one, or one that has been pushed by its step. -/
def Origin.IsFrame (g : Grammar) (text : List Char) : Origin → Prop
  | .lowest => True
  | .pushedBy step => Pushes g text step

theorem toNat_serialOf_lt (h : Text.byteLength text < 2 ^ 32) {step later : Nat}
    (hl : step < later) (hp : Pushes g text later) :
    (serialOf g text (.pushedBy step)).toNat < (serialOf g text (.pushedBy later)).toNat := by
  have hle := pushes_monotone g h (Nat.succ_le_of_lt hl)
  rw [serialOf, serialOf, pushes_after_succ h hp]
  exact Nat.lt_succ_of_le hle

theorem serialOf_ne_zero (h : Text.byteLength text < 2 ^ 32) (hp : Pushes g text step) :
    serialOf g text (.pushedBy step) ≠ 0 := by
  intro hz
  have hsucc := pushes_after_succ h hp
  rw [serialOf] at hz
  rw [hz] at hsucc
  cases hsucc

/-- The serial numbers tell the frames of a scan apart. -/
theorem serialOf_injective (h : Text.byteLength text < 2 ^ 32) {a b : Origin}
    (ha : a.IsFrame g text) (hb : b.IsFrame g text) (hs : serialOf g text a = serialOf g text b) :
    a = b := by
  cases a with
  | lowest =>
      cases b with
      | lowest => rfl
      | pushedBy later => exact absurd hs.symm (serialOf_ne_zero h hb)
  | pushedBy step =>
      cases b with
      | lowest => exact absurd hs (serialOf_ne_zero h ha)
      | pushedBy later =>
          have hnat := congrArg UInt32.toNat hs
          obtain hlt | rfl | hgt := Nat.lt_trichotomy step later
          · exact absurd hnat (Nat.ne_of_lt (toNat_serialOf_lt h hlt hb))
          · rfl
          · exact absurd hnat.symm (Nat.ne_of_lt (toNat_serialOf_lt h hgt ha))

theorem isFrame_of_mem_origins {o : Origin} (h : o ∈ origins g text step) : o.IsFrame g text := by
  induction step with
  | zero =>
      obtain rfl := List.mem_singleton.mp h
      trivial
  | succ step ih =>
      rw [origins] at h
      split at h
      · next hp =>
          obtain rfl | hm := List.mem_cons.mp h
          · exact hp
          · exact ih hm
      · exact ih (List.mem_of_mem_drop h)

theorem head?_origins (g : Grammar) (text : List Char) (step : Nat) :
    (origins g text step).head?.map (serialOf g text) =
      some (after g text step).stack.top.serial := by
  rw [← List.head?_map, ← serials_after]
  rfl

/-- The construct of a piece is the serial number of the frame that the piece belongs to. -/
theorem construct_eq_owner {p : Piece} {t : Scanner} (h : (steps g text)[step]? = some (p, t)) :
    p.construct = (owner? g text step).map (serialOf g text) := by
  obtain ⟨hn, ht⟩ := next?_after h
  obtain ⟨_, move, _, hp, hs⟩ := move_of_next? hn
  have hstack : (after g text (step + 1)).stack =
      (after g text step).stack.apply move.transition := by
    rw [ht, hs]
  have hinside : (if g.encloses (after g text step).stack.top.mode then
      some (after g text step).stack.top.serial else none) =
      (if g.encloses (after g text step).stack.top.mode then (origins g text step).head?
        else none).map (serialOf g text) := by
    split
    · exact (head?_origins g text step).symm
    · rfl
  have hconstruct : p.construct =
      g.construct? (after g text step).stack move.transition := congrArg Piece.construct hp
  by_cases hpush : ∃ mode, move.transition = .push mode
  · obtain ⟨mode, hpush⟩ := hpush
    rw [hpush] at hstack hconstruct
    have hpushes : Pushes g text step := by
      rw [Pushes, hstack]
      exact Nat.lt_succ_self _
    have htop : (after g text (step + 1)).stack.top.mode = mode := by
      rw [hstack]
      rfl
    rw [hconstruct, Grammar.construct?_of_push, owner?, htop, hinside]
    simp only [hpushes, true_and]
    split
    · rw [Option.map_some, serialOf, hstack]
      rfl
    · rfl
  · have hnot : ∀ mode, move.transition ≠ .push mode := fun mode he => hpush ⟨mode, he⟩
    have hkeeps : ¬ Pushes g text step := by
      rw [Pushes, hstack]
      exact Nat.not_lt.mpr (ModeStack.size_apply_le hnot _)
    rw [hconstruct, Grammar.construct?_of_ne_push g _ hnot, owner?, hinside]
    simp only [hkeeps, false_and, if_false]

theorem isFrame_owner {o : Origin} (h : owner? g text step = some o) : o.IsFrame g text := by
  rw [owner?] at h
  split at h
  · next hp =>
      obtain rfl := Option.some.inj h
      exact hp.1
  · split at h
    · exact isFrame_of_mem_origins (List.mem_of_mem_head? h)
    · cases h

/-- Comparing the serial numbers that two pieces name is comparing their frames. -/
theorem construct_eq_iff (h : Text.byteLength text < 2 ^ 32) {later : Nat} {p q : Piece}
    {s t : Scanner} (hp : (steps g text)[step]? = some (p, s))
    (hq : (steps g text)[later]? = some (q, t)) :
    p.construct = q.construct ↔ owner? g text step = owner? g text later := by
  rw [construct_eq_owner hp, construct_eq_owner hq]
  refine ⟨fun he => ?_, fun he => congrArg _ he⟩
  cases ha : owner? g text step with
  | none =>
      cases hb : owner? g text later with
      | none => rfl
      | some b => simp [ha, hb] at he
  | some a =>
      cases hb : owner? g text later with
      | none => simp [ha, hb] at he
      | some b =>
          rw [ha, hb] at he
          rw [serialOf_injective h (isFrame_owner ha) (isFrame_owner hb) (Option.some.inj he)]

end Scanner
end LiquidsoapHighlight
