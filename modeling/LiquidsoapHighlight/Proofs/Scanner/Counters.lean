import LiquidsoapHighlight.Liquidsoap.Grammar
import LiquidsoapHighlight.Proofs.Scanner.Origins
import LiquidsoapHighlight.Proofs.Token.Joining

/-!
The counters of a scan: the depths of the frames, and the number of pushes. A step counts up by one
at most and takes a byte at least. In a text with fewer bytes than there are numbers the counters
therefore do not wrap around, so that no two constructs have the same serial number.
-/

namespace LiquidsoapHighlight
namespace Scanner
variable {g : Grammar} {text : List Char} {step : Nat}

theorem offset_add_rest (g : Grammar) (text : List Char) (step : Nat) :
    (after g text step).offset + Text.byteLength (after g text step).rest =
      Text.byteLength text := by
  have htrace := (trace_take_drop g text step).1
  have hrest : text = _ ++ (after g text step).rest := htrace.rest_eq
  have hoffset : (after g text step).offset = 0 + _ := htrace.offset_eq
  rw [hoffset, Nat.zero_add, ← Text.byteLength_append, ← hrest]

theorem offset_lt (h : (after g text step).rest ≠ []) :
    (after g text step).offset < Text.byteLength text := by
  have hall := offset_add_rest g text step
  have hpos := Text.byteLength_pos h
  omega

theorem lt_offset_next {s t : Scanner} {p : Piece} (h : s.next? g = some (p, t)) :
    s.offset < t.offset := by
  obtain ⟨hne, _, hstart, hstop⟩ := next?_takes h
  have hpos := Text.byteLength_pos hne
  rw [hstop, Token.stop, Token.length, hstart]
  omega

/-- A level is only gone down by taking something, so no frame is deeper than the offset. -/
theorem depth_le_offset (g : Grammar) (text : List Char) (step : Nat) :
    ∀ frame ∈ (after g text step).stack.frames, frame.depth.toNat ≤ (after g text step).offset := by
  apply after_preserves (P := fun s => ∀ frame ∈ s.stack.frames, frame.depth.toNat ≤ s.offset)
  · intro frame hframe
    obtain rfl := List.mem_singleton.mp hframe
    exact Nat.le_refl 0
  · intro s t p hs hn frame hframe
    have hoffset := lt_offset_next hn
    obtain ⟨_, move, _, _, rfl⟩ := move_of_next? hn
    exact Nat.le_trans (ModeStack.depth_apply_le hs move.transition frame hframe) hoffset

theorem toNat_depth_nest (h : Text.byteLength text < 2 ^ 32)
    (hrest : (after g text step).rest ≠ []) :
    (after g text step).stack.nest.top.depth.toNat =
      (after g text step).stack.top.depth.toNat + 1 := by
  have hdepth := depth_le_offset g text step (after g text step).stack.top List.mem_cons_self
  have hoffset := offset_lt hrest
  exact ModeStack.toNat_add_one (by omega)

theorem toNat_pushes_eq (h : Text.byteLength text < 2 ^ 32) (step : Nat) :
    (after g text step).stack.pushes.toNat =
      (List.range step).countP fun earlier => Pushes g text earlier := by
  induction step with
  | zero => rfl
  | succ step ih =>
      rw [List.range_succ, List.countP_append, List.countP_singleton, ← ih]
      obtain ⟨hp, _⟩ | ⟨hp, _, hpushes⟩ := pushes_or_keeps g text step
      · rw [pushes_after_succ h hp, if_pos (decide_eq_true hp)]
      · rw [hpushes, if_neg (by simpa using hp)]
        rfl

/-- The step puts the frame on top of all others. -/
def PushesFrame (g : Grammar) (text : List Char) (step : Nat) (frame : Frame) : Prop :=
  (after g text (step + 1)).stack.frames = frame :: (after g text step).stack.frames

theorem PushesFrame.pushes {frame : Frame} (h : PushesFrame g text step frame) :
    Pushes g text step := by
  rw [Pushes, ModeStack.size, ModeStack.size, h]
  exact Nat.lt_succ_self _

theorem PushesFrame.serial_eq {frame : Frame} (h : PushesFrame g text step frame) :
    frame.serial = serialOf g text (.pushedBy step) := by
  obtain ⟨_, _, mode, hs⟩ | ⟨hnot, _⟩ := pushes_or_keeps g text step
  · rw [PushesFrame, hs] at h
    rw [serialOf, hs, ← (List.cons.inj h).1]
    rfl
  · exact absurd h.pushes hnot

theorem serial_of_lowest {lowest : Frame}
    (h : (after g text step).stack.frames.getLast? = some lowest) : lowest.serial = 0 := by
  have hentry : [(.topLevel, 0)] <:+ (after g text step).stack.entries :=
    after_preserves (P := fun s => [(Mode.topLevel, 0)] <:+ s.stack.entries) text
      (List.suffix_refl _) lowest_next step
  obtain ⟨depth, hlowest⟩ := ModeStack.exists_lowest hentry
  rw [h] at hlowest
  rw [Option.some.inj hlowest]

/-- In this state the counters are what they would be if they had no limit, and stay so in the next
step. -/
structure Counted (g : Grammar) (text : List Char) (step : Nat) : Prop where
  depth : ∀ frame ∈ (after g text step).stack.frames,
    frame.depth.toNat ≤ (after g text step).offset
  deepens : (after g text step).rest ≠ [] → (after g text step).stack.nest.top.depth.toNat =
    (after g text step).stack.top.depth.toNat + 1
  pushes : (after g text step).stack.pushes.toNat =
    (List.range step).countP fun earlier => Pushes g text earlier

/-- Serial numbers tell apart the frames of a scan, and so the constructs of its pieces. When pieces
are joined one by one, a piece is compared with the first one of the last token. -/
structure ToldApart (g : Grammar) (text : List Char) : Prop where
  pushed : ∀ step later frame other, PushesFrame g text step frame →
    PushesFrame g text later other → step ≠ later → frame.serial ≠ other.serial
  lowest : ∀ step count frame lowest, PushesFrame g text step frame →
    (after g text count).stack.frames.getLast? = some lowest → frame.serial ≠ lowest.serial
  constructs : ∀ step later p q s t, (steps g text)[step]? = some (p, s) →
    (steps g text)[later]? = some (q, t) →
      (p.construct = q.construct ↔ owner? g text step = owner? g text later)
  joining : ∀ step p t last done construct, (steps g text)[step]? = some (p, t) →
    ((pieces g text).take step).foldl Token.joinNext ([], none) = (last :: done, construct) →
      ∃ first < step, ∃ q s, (steps g text)[first]? = some (q, s) ∧
        q.token.kind = last.kind ∧ q.token.start = last.start ∧
        (construct = p.construct ↔ owner? g text first = owner? g text step)

theorem toldApart (g : Grammar) {text : List Char} (h : Text.byteLength text < 2 ^ 32) :
    ToldApart g text where
  pushed := by
    intro step later frame other hframe hother hne hserial
    rw [hframe.serial_eq, hother.serial_eq] at hserial
    exact hne (Origin.pushedBy.inj (serialOf_injective h hframe.pushes hother.pushes hserial))
  lowest := by
    intro step count frame lowest hframe hlowest
    rw [hframe.serial_eq, serial_of_lowest hlowest]
    exact serialOf_ne_zero h hframe.pushes
  constructs := fun step later p q s t hp hq => construct_eq_iff h hp hq
  joining := by
    intro step p t last done construct hp hstate
    have hbegins := Token.beginsIn_foldl ((pieces g text).take step)
    rw [hstate] at hbegins
    obtain ⟨q, hq, hkind, hstart, rfl⟩ := hbegins last rfl
    obtain ⟨first, hfirst, rfl⟩ := List.mem_take_iff_getElem.mp hq
    obtain ⟨hlt, hl⟩ := Nat.lt_min.mp hfirst
    rw [pieces, List.length_map] at hl
    have hget : (steps g text)[first]? =
        some ((pieces g text)[first], (steps g text)[first].2) := by
      simp [pieces, List.getElem?_eq_getElem hl]
    exact ⟨first, hlt, _, _, hget, hkind, hstart, construct_eq_iff h hget hp⟩

/-- In a text with fewer bytes than there are numbers, no counter wraps around, and no two frames
have the same number. -/
theorem counters_never_wrap (g : Grammar) {text : List Char} (h : Text.byteLength text < 2 ^ 32) :
    (∀ step, Counted g text step) ∧ ToldApart g text := by
  refine ⟨fun step => ⟨depth_le_offset g text step, ?_, toNat_pushes_eq h step⟩, toldApart g h⟩
  exact fun hrest => toNat_depth_nest h hrest

/-- A block comment with another one in it, and a block comment right after it. -/
def nestedThenBlock : List Char := "#<#<>#>##<b>#".toList

/-- While the inner comment is open, the frame is one level deep. The two outer comments have
numbers of their own. -/
theorem nestedThenBlock_told_apart :
    Text.byteLength nestedThenBlock < 2 ^ 32 ∧
      (after Liquidsoap.grammar nestedThenBlock 2).stack.top = ⟨.blockComment, 1, 1⟩ ∧
      PushesFrame Liquidsoap.grammar nestedThenBlock 0 ⟨.blockComment, 0, 1⟩ ∧
      PushesFrame Liquidsoap.grammar nestedThenBlock 4 ⟨.blockComment, 0, 2⟩ ∧
      (∀ step, Counted Liquidsoap.grammar nestedThenBlock step) ∧
      ToldApart Liquidsoap.grammar nestedThenBlock := by
  have hbytes : Text.byteLength nestedThenBlock < 2 ^ 32 := by decide
  refine ⟨hbytes, by decide +kernel, ?_, ?_, counters_never_wrap Liquidsoap.grammar hbytes⟩
  · unfold PushesFrame
    decide +kernel
  · unfold PushesFrame
    decide +kernel

end Scanner
end LiquidsoapHighlight
