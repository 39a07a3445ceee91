import Mathlib.Logic.Function.Iterate
import LiquidsoapHighlight.Proofs.Mode.Stack

/-!
Stacks over any number of transitions. The lowest frame is always that of the top level, serial
numbers rise from the bottom to the top, and a frame stays as it is for as long as there is another
one above it. All of this is kept by each transition.
-/

namespace LiquidsoapHighlight
namespace ModeStack

/-- The frames from the bottom to the top. -/
def upward (s : ModeStack) : List Frame := s.frames.reverse

/-- The frames under a position, which is counted from the bottom. -/
def under (position : Nat) (s : ModeStack) : List Frame := s.upward.take position

/-- The stack after the first steps of a history, of which there may be fewer than asked for. -/
def after (history : List Transition) (count : Nat) : ModeStack :=
  (history.take count).foldl (fun s t => s.apply t) initial

theorem after_succ {history : List Transition} {step : Nat} {t : Transition}
    (h : history[step]? = some t) :
    after history (step + 1) = (after history step).apply t := by
  rw [after, List.take_add_one, h, Option.toList_some, List.foldl_append]
  rfl

theorem after_succ_of_length_le {history : List Transition} {step : Nat}
    (h : history.length ≤ step) : after history (step + 1) = after history step := by
  rw [after, after, List.take_of_length_le h, List.take_of_length_le (Nat.le_succ_of_le h)]

/-- What holds of the initial stack and is kept by each of the transitions holds throughout. -/
theorem after_preserves {P : Nat → ModeStack → Prop} (history : List Transition)
    (initially : P 0 initial)
    (keep : ∀ {step : Nat} {s : ModeStack} (t : Transition), step < history.length → P step s →
      P (step + 1) (s.apply t))
    (weaken : ∀ {step : Nat} {s : ModeStack}, P step s → P (step + 1) s) (count : Nat) :
    P count (after history count) := by
  induction count with
  | zero => exact initially
  | succ step ih =>
      by_cases hl : step < history.length
      · rw [after_succ (List.getElem?_eq_getElem hl)]
        exact keep _ hl ih
      · rw [after_succ_of_length_le (Nat.le_of_not_lt hl)]
        exact weaken ih

/-- Serial numbers fall from the top to the bottom, and none is above the number of pushes. -/
structure Numbered (s : ModeStack) : Prop where
  falling : s.serials.Pairwise fun upper lower => lower < upper
  newest : ∀ serial ∈ s.serials, serial ≤ s.pushes

theorem numbered_initial : Numbered initial :=
  ⟨List.pairwise_singleton _ _, by simp [serials, frames, initial]⟩

theorem Numbered.push {s : ModeStack} (h : Numbered s) (hp : s.pushes.toNat + 1 < 2 ^ 32)
    (mode : Mode) : Numbered (s.push mode) := by
  have hlt : s.pushes < s.pushes + 1 := by
    rw [UInt32.lt_iff_toNat_lt, toNat_add_one hp]
    exact Nat.lt_succ_self _
  have hbelow : ∀ serial ∈ s.serials, serial < s.pushes + 1 :=
    fun serial hs => UInt32.lt_of_le_of_lt (h.newest serial hs) hlt
  constructor
  · exact List.pairwise_cons.mpr ⟨hbelow, h.falling⟩
  · refine List.forall_mem_cons.mpr ⟨UInt32.le_refl _, fun serial hs => ?_⟩
    exact UInt32.le_of_lt (hbelow serial hs)

theorem Numbered.apply {s : ModeStack} (h : Numbered s) (hp : s.pushes.toNat + 1 < 2 ^ 32)
    (t : Transition) : Numbered (s.apply t) := by
  obtain ⟨mode, rfl⟩ | ⟨hkept, hpushes⟩ := push_or_keeps t s
  · exact h.push hp mode
  · have hsuffix := serials_suffix hkept
    refine ⟨h.falling.sublist hsuffix.sublist, fun serial hs => ?_⟩
    rw [hpushes]
    exact h.newest serial (hsuffix.subset hs)

theorem depth_after_le (history : List Transition) (count : Nat) :
    ∀ frame ∈ (after history count).frames, frame.depth.toNat ≤ count :=
  after_preserves (P := fun step s => ∀ frame ∈ s.frames, frame.depth.toNat ≤ step) history
    (by simp [frames, initial]) (fun t _ hs => depth_apply_le hs t)
    (fun hs frame hf => Nat.le_succ_of_le (hs frame hf)) count

/-- The frames below the top one are left as they are, if they are not removed. -/
def LeavesBelow (s t : ModeStack) : Prop := s.below <:+ t.frames ∨ t.frames <:+ s.below

theorem leavesBelow_pop (s : ModeStack) : LeavesBelow s s.pop := by
  left
  obtain ⟨top, below, pushes⟩ := s
  cases below with
  | nil => exact List.nil_suffix
  | cons frame below => exact List.suffix_refl _

theorem leavesBelow_apply (t : Transition) (s : ModeStack) : LeavesBelow s (s.apply t) := by
  cases t with
  | stay | nest => exact .inl (List.suffix_cons _ _)
  | push mode => exact .inl ((List.suffix_cons _ _).trans (List.suffix_cons _ _))
  | pop => exact s.leavesBelow_pop
  | popTo mode =>
      -- Either nothing is popped, or the top frame is gone.
      obtain hsame | hless := List.suffix_cons_iff.mp (s.popTo_suffix mode)
      · left
        change s.below <:+ (s.popTo mode).frames
        rw [hsame]
        exact List.suffix_cons _ _
      · exact .inr hless
  | unnest =>
      change LeavesBelow s s.unnest
      obtain hu | ⟨depth, hu⟩ := s.unnest_eq
      · rw [hu]
        exact s.leavesBelow_pop
      · rw [hu]
        exact .inl (List.suffix_cons _ _)

theorem leavesBelow_after (history : List Transition) (step : Nat) :
    LeavesBelow (after history step) (after history (step + 1)) := by
  by_cases hl : step < history.length
  · rw [after_succ (List.getElem?_eq_getElem hl)]
    exact leavesBelow_apply _ _
  · rw [after_succ_of_length_le (Nat.le_of_not_lt hl)]
    exact .inl (List.suffix_cons _ _)

theorem take_eq_of_extends {α : Type} {xs ys : List α} {count : Nat} (h : xs <+: ys)
    (hl : count ≤ xs.length) : ys.take count = xs.take count := by
  obtain ⟨rest, rfl⟩ := h
  exact List.take_append_of_le_length hl

/-- The frames under a position are left as they are, if there was a frame at the position and there
are still as many frames as were under it. -/
theorem LeavesBelow.under_eq {s t : ModeStack} {position : Nat} (h : LeavesBelow s t)
    (hs : position < s.size) (ht : position ≤ t.size) : t.under position = s.under position := by
  have hlength : position ≤ s.below.reverse.length := by
    rw [List.length_reverse]
    exact Nat.le_of_lt_succ hs
  have hunder : s.under position = s.below.reverse.take position := by
    rw [under, upward, frames, List.reverse_cons, List.take_append_of_le_length hlength]
  rw [hunder, under]
  obtain hkept | hless := h
  · exact take_eq_of_extends (List.reverse_prefix.mpr hkept) hlength
  · exact (take_eq_of_extends (List.reverse_prefix.mpr hless) (by rwa [List.length_reverse])).symm

/-- Nothing under a position changes until the frame at the position is gone. -/
theorem under_after {history : List Transition} {first last position : Nat} (hle : first ≤ last)
    (h : ∀ step < last, first ≤ step → position < (after history step).size)
    (hleft : position ≤ (after history last).size) :
    (after history last).under position = (after history first).under position := by
  induction hle with
  | refl => rfl
  | @step last hle ih =>
      have hlast := h last (Nat.lt_succ_self last) hle
      rw [(leavesBelow_after history last).under_eq hlast hleft]
      exact ih (fun step hl hs => h step (Nat.lt_succ_of_lt hl) hs) (Nat.le_of_lt hlast)

/-- Popping to a mode goes on from this stack. -/
def PopsOn (mode : Mode) (s : ModeStack) : Prop := 1 < s.size ∧ s.top.mode ≠ mode

/-- Popping to a mode is popping one by one, which comes to an end. -/
theorem exists_popTo_eq (mode : Mode) (s : ModeStack) :
    ∃ count, (∀ done < count, PopsOn mode (pop^[done] s)) ∧ ¬ PopsOn mode (pop^[count] s) ∧
      s.popTo mode = pop^[count] s := by
  obtain ⟨top, below, pushes⟩ := s
  induction below generalizing top with
  | nil => exact ⟨0, nofun, fun h => absurd h.1 (Nat.lt_irrefl 1), rfl⟩
  | cons frame below ih =>
      by_cases htop : top.mode = mode
      · refine ⟨0, nofun, fun h => h.2 htop, ?_⟩
        rw [popTo, dropTo_of_mode htop]
        rfl
      · -- One frame is popped, and the others are popped from the stack that is left.
        obtain ⟨count, hon, hstop, heq⟩ := ih frame
        refine ⟨count + 1, fun done hd => ?_, hstop, ?_⟩
        · cases done with
          | zero => exact ⟨Nat.succ_lt_succ (Nat.succ_pos _), htop⟩
          | succ done => exact hon done (Nat.lt_of_succ_lt_succ hd)
        · rw [Function.iterate_succ_apply]
          refine Eq.trans ?_ heq
          simp only [popTo, dropTo_of_ne htop]

theorem frames_ne_nil (s : ModeStack) : s.frames ≠ [] := List.cons_ne_nil _ _

theorem dropTo_absent {mode : Mode} {top : Frame} {below : List Frame}
    (h : ∀ frame ∈ (top :: below).dropLast, frame.mode ≠ mode) :
    dropTo mode top below = ((top :: below).getLast (List.cons_ne_nil _ _), []) := by
  induction below generalizing top with
  | nil => rfl
  | cons next below ih =>
      rw [List.dropLast_cons_cons] at h
      obtain ⟨htop, hrest⟩ := List.forall_mem_cons.mp h
      rw [dropTo_of_ne htop, ih hrest, List.getLast_cons_cons]

/-- Popping to a mode that no frame above the lowest one has leaves only that one. -/
theorem frames_popTo_absent {mode : Mode} {s : ModeStack}
    (h : ∀ frame ∈ s.frames.dropLast, frame.mode ≠ mode) :
    (s.popTo mode).frames = [s.frames.getLast s.frames_ne_nil] := by
  rw [popTo, dropTo_absent h]
  rfl

/-- What is left of a stack by popping to a mode: one pops as long as there is another frame and
the top one does not have the mode. This keeps all up to the uppermost frame of the mode, or else
the lowest frame. -/
structure PopsTo (mode : Mode) (s t : ModeStack) : Prop where
  ends : ∃ count, (∀ done < count, PopsOn mode (pop^[done] s)) ∧ ¬ PopsOn mode (pop^[count] s) ∧
    t = pop^[count] s
  uppermost : ∀ lower frame upper, s.upward = lower ++ frame :: upper → frame.mode = mode →
    (∀ other ∈ upper, other.mode ≠ mode) → t.upward = lower ++ [frame]
  absent : (∀ frame ∈ s.upward.tail, frame.mode ≠ mode) → t.upward = s.under 1

theorem popsTo_popTo (mode : Mode) (s : ModeStack) : PopsTo mode s (s.popTo mode) where
  ends := exists_popTo_eq mode s
  uppermost := by
    intro lower frame upper hs hframe hupper
    have hframes : s.frames = upper.reverse ++ frame :: lower.reverse := by
      rw [← s.frames.reverse_reverse, ← upward, hs]
      simp
    rw [upward, frames_popTo_uppermost hframes hframe (by simpa using hupper)]
    simp
  absent := by
    intro habsent
    rw [upward, List.tail_reverse] at habsent
    rw [upward, frames_popTo_absent (fun frame hf => habsent frame (List.mem_reverse.mpr hf)),
      under, upward, List.take_one, List.head?_reverse,
      List.getLast?_eq_some_getLast s.frames_ne_nil]
    rfl

theorem exists_lowest_after (history : List Transition) (count : Nat) :
    ∃ depth, (after history count).upward.head? = some ⟨.topLevel, depth, 0⟩ := by
  have hentry : [(.topLevel, 0)] <:+ (after history count).entries :=
    after_preserves (P := fun _ s => [(Mode.topLevel, 0)] <:+ s.entries) history
      (List.suffix_refl _) (fun t _ hs => lowest_apply t hs) id count
  obtain ⟨depth, hlowest⟩ := exists_lowest hentry
  exact ⟨depth, (List.head?_reverse).trans hlowest⟩

theorem numbered_after {history : List Transition} (h : history.length < 2 ^ 32) (count : Nat) :
    Numbered (after history count) := by
  -- The order is kept by a push only if the number of pushes does not wrap around.
  have hcounted := after_preserves (P := fun step s => s.pushes.toNat ≤ step ∧ Numbered s) history
    ⟨Nat.le_refl 0, numbered_initial⟩
    (fun t hl hs => ⟨Nat.le_trans (toNat_pushes_apply_le t _) (Nat.succ_le_succ hs.1),
      hs.2.apply (by omega) t⟩)
    (fun hs => ⟨Nat.le_succ_of_le hs.1, hs.2⟩) count
  exact hcounted.2

theorem toNat_depth_nest {history : List Transition} (h : history.length < 2 ^ 32) {step : Nat}
    (hnest : history[step]? = some .nest) :
    (after history (step + 1)).top.depth.toNat = (after history step).top.depth.toNat + 1 := by
  obtain ⟨hl, _⟩ := List.getElem?_eq_some_iff.mp hnest
  have hdepth := depth_after_le history step (after history step).top List.mem_cons_self
  rw [after_succ hnest]
  exact toNat_add_one (by omega)

/-- The laws of a stack: its lowest frame, the order of the serial numbers, depths that do not wrap
around, what a step and any number of steps leave alone, and what popping to a mode leaves. -/
structure Lawful (history : List Transition) : Prop where
  lowest : ∀ step, ∃ depth, (after history step).upward.head? = some ⟨.topLevel, depth, 0⟩
  rising : ∀ step, (after history step).upward.Pairwise fun lower upper =>
    lower.serial < upper.serial
  deepens : ∀ step, history[step]? = some .nest →
    (after history (step + 1)).top.depth.toNat = (after history step).top.depth.toNat + 1
  leavesBelow : ∀ step, LeavesBelow (after history step) (after history (step + 1))
  untouched : ∀ first last position, first ≤ last →
    (∀ step < last, first ≤ step → position < (after history step).size) →
    position ≤ (after history last).size →
      (after history last).under position = (after history first).under position
  popsTo : ∀ step mode, PopsTo mode (after history step) ((after history step).apply (.popTo mode))

/-- As long as there are fewer transitions than numbers, the stack obeys its laws. -/
theorem history_lawful {history : List Transition} (h : history.length < 2 ^ 32) :
    Lawful history where
  lowest := exists_lowest_after history
  rising := by
    intro step
    rw [upward, List.pairwise_reverse]
    exact List.pairwise_map.mp (numbered_after h step).falling
  deepens := fun _ hnest => toNat_depth_nest h hnest
  leavesBelow := leavesBelow_after history
  untouched := fun _ _ _ hle hsize hleft => under_after hle hsize hleft
  popsTo := fun step mode => popsTo_popTo mode (after history step)

/-- A string whose hole is left from a frame above it, after which a second hole is opened. -/
def holeLeft : List Transition :=
  [.nest, .push .doubleString, .push .doubleInterpolation, .push .topLevel, .nest,
    .popTo .doubleString, .push .doubleInterpolation]

/-- The second hole has a number of its own; the lowest frame keeps the depth that it had when the
string was pushed. -/
theorem holeLeft_lawful :
    holeLeft.length < 2 ^ 32 ∧
      (after holeLeft 7).upward =
        [⟨.topLevel, 1, 0⟩, ⟨.doubleString, 0, 1⟩, ⟨.doubleInterpolation, 0, 4⟩] ∧
      (∀ step < 7, 2 ≤ step → 1 < (after holeLeft step).size) ∧
      (after holeLeft 7).under 1 = (after holeLeft 2).under 1 ∧
      Lawful holeLeft := by
  have hlaws := history_lawful (show holeLeft.length < 2 ^ 32 by decide)
  have hsize : ∀ step < 7, 2 ≤ step → 1 < (after holeLeft step).size := by decide
  refine ⟨by decide, by decide, hsize, ?_, hlaws⟩
  exact hlaws.untouched 2 7 1 (by decide) hsize (by decide)

end ModeStack
end LiquidsoapHighlight
