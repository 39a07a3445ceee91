import Mathlib.Data.List.Chain
import LiquidsoapHighlight.Proofs.Liquidsoap.Effect
import LiquidsoapHighlight.Proofs.Mode.Stack

/-!
The shapes that the stack of a Liquidsoap scan can have: the top level, then strings each with a
hole and the braces open in it, then at most one construct without expressions. The shape is kept by
every step, so that it holds at each point of the scan of any text.
-/

namespace LiquidsoapHighlight
namespace Liquidsoap

theorem Quote.string_ne_interpolation (q r : Quote) : q.interpolation ≠ r.string := by
  cases q <;> cases r <;> decide

theorem Quote.interpolation_injective {q r : Quote} (h : q.interpolation = r.interpolation) :
    q = r := by
  cases q <;> cases r <;> first | rfl | exact absurd h (by decide)

theorem Quote.string_injective {q r : Quote} (h : q.string = r.string) : q = r := by
  cases q <;> cases r <;> first | rfl | exact absurd h (by decide)

/-- Frames, from the top down, of a scan that is in the midst of an expression. -/
inductive InExpression : List Frame → Prop where
  | topLevel {frame : Frame} : frame.mode = .topLevel → frame.depth = 0 → InExpression [frame]
  | hole {hole string : Frame} {below : List Frame} (q : Quote) :
      hole.mode = q.interpolation → hole.depth = 0 → string.mode = q.string →
      string.depth = 0 → InExpression below → InExpression (hole :: string :: below)
  | brace {brace frame : Frame} {below : List Frame} :
      brace.mode = .braces → brace.depth = 0 → frame.mode ≠ .topLevel →
      InExpression (frame :: below) → InExpression (brace :: frame :: below)

/-- Frames of a scan in an expression, or in a construct that was opened there. -/
inductive WellNested : List Frame → Prop where
  | expression {frames : List Frame} : InExpression frames → WellNested frames
  | inside {frame : Frame} {below : List Frame} : frame.mode.scansExpressions = false →
      (frame.depth ≠ 0 → frame.mode = .blockComment ∨ frame.mode = .annotationBlock) →
      InExpression below → WellNested (frame :: below)

namespace InExpression

theorem ne_nil {frames : List Frame} (h : InExpression frames) : frames ≠ [] := by
  cases h <;> exact List.cons_ne_nil _ _

theorem scansExpressions {frame : Frame} {below : List Frame}
    (h : InExpression (frame :: below)) : frame.mode.scansExpressions = true := by
  cases h with
  | topLevel hm _ => rw [hm]; rfl
  | hole q hm => rw [hm]; cases q <;> rfl
  | brace hm => rw [hm]; rfl

theorem under_hole {frame : Frame} {below : List Frame} {q : Quote}
    (h : InExpression (frame :: below)) (hm : frame.mode = q.interpolation) :
    ∃ string rest, below = string :: rest ∧ string.mode = q.string ∧ string.depth = 0 ∧
      InExpression rest := by
  cases h with
  | topLevel ht _ => rw [ht] at hm; cases q <;> exact absurd hm (by decide)
  | @hole _ string rest r hr _ hs hd hrest =>
      obtain rfl := Quote.interpolation_injective (hr.symm.trans hm)
      exact ⟨string, rest, rfl, hs, hd, hrest⟩
  | brace hb => rw [hb] at hm; cases q <;> exact absurd hm (by decide)

theorem under_brace {frame : Frame} {below : List Frame}
    (h : InExpression (frame :: below)) (hm : frame.mode = .braces) : InExpression below := by
  cases h with
  | topLevel ht _ => rw [ht] at hm; exact absurd hm (by decide)
  | hole q hq => rw [hq] at hm; cases q <;> exact absurd hm (by decide)
  | brace _ _ _ hbelow => exact hbelow

end InExpression

namespace WellNested

theorem inExpression {frame : Frame} {below : List Frame} (h : WellNested (frame :: below))
    (hm : frame.mode.scansExpressions = true) : InExpression (frame :: below) := by
  cases h with
  | expression he => exact he
  | inside hf => rw [hf] at hm; exact absurd hm (by decide)

theorem under_construct {frame : Frame} {below : List Frame} (h : WellNested (frame :: below))
    (hm : frame.mode.scansExpressions = false) :
    InExpression below ∧
      (frame.depth ≠ 0 → frame.mode = .blockComment ∨ frame.mode = .annotationBlock) := by
  cases h with
  | expression he =>
      rw [he.scansExpressions] at hm
      exact absurd hm (by decide)
  | inside _ hd hb => exact ⟨hb, hd⟩

theorem push_construct {s : ModeStack} {mode : Mode} (h : InExpression s.frames)
    (hm : mode.scansExpressions = false) : WellNested (s.push mode).frames :=
  .inside hm (fun hd => absurd rfl hd) h

theorem pop_construct {s : ModeStack} (h : WellNested s.frames)
    (hm : s.top.mode.scansExpressions = false) : WellNested s.pop.frames := by
  obtain ⟨hb, _⟩ := h.under_construct hm
  rw [ModeStack.frames_pop hb.ne_nil]
  exact .expression hb

theorem popTo_hole {s : ModeStack} {q : Quote} (h : WellNested s.frames)
    (hm : s.top.mode = q.interpolation) :
    (s.popTo q.string).frames = s.below ∧ (s.popTo q.string).top.mode = q.string := by
  obtain ⟨top, below, pushes⟩ := s
  have hx : top.mode.scansExpressions = true := by
    rw [hm]
    cases q <;> rfl
  obtain ⟨string, rest, rfl, hs, _, _⟩ := (h.inExpression hx).under_hole hm
  have hne : top.mode ≠ q.string := hm ▸ q.string_ne_interpolation q
  have hp := ModeStack.frames_popTo rest pushes hne hs
  refine ⟨hp, ?_⟩
  rw [(List.cons.inj hp).1]
  exact hs

theorem nest {s : ModeStack} (h : WellNested s.frames)
    (hm : s.top.mode = .blockComment ∨ s.top.mode = .annotationBlock) :
    WellNested s.nest.frames ∧ WellNested s.unnest.frames := by
  have hf : s.top.mode.scansExpressions = false := by
    rcases hm with hm | hm <;> rw [hm] <;> rfl
  obtain ⟨hb, _⟩ := h.under_construct hf
  refine ⟨.inside hf (fun _ => hm) hb, ?_⟩
  unfold ModeStack.unnest
  split
  · exact h.pop_construct hf
  · exact .inside hf (fun _ => hm) hb

theorem apply {s : ModeStack} {kind : TokenKind} {taken : List Char} {t : Transition}
    (h : WellNested s.frames) (he : Effect s.top.mode kind taken t) :
    WellNested (s.apply t).frames := by
  obtain ⟨top, below, pushes⟩ := s
  generalize hm : top.mode = mode at he
  cases he with
  | content => exact h
  | openComment hx | openLine hx | openArgsof hx =>
      exact push_construct (h.inExpression (hm ▸ hx)) rfl
  | openString q hx =>
      exact push_construct (h.inExpression (hm ▸ hx)) (by cases q <;> rfl)
  | openBrace hx hne =>
      exact .expression (.brace rfl rfl (hm ▸ hne) (h.inExpression (hm ▸ hx)))
  | closeBrace =>
      have hb := (h.inExpression (hm ▸ rfl)).under_brace hm
      have hp := ModeStack.frames_pop (s := ⟨top, below, pushes⟩) hb.ne_nil
      exact .expression (hp ▸ hb)
  | openHole q =>
      have hf : top.mode.scansExpressions = false := by
        rw [hm]
        cases q <;> rfl
      obtain ⟨hb, hd⟩ := h.under_construct hf
      have hzero : top.depth = 0 := by
        by_cases hz : top.depth = 0
        · exact hz
        · rcases hd hz with hc | hc <;> rw [hm] at hc <;> cases q <;> cases hc
      exact .expression (.hole q rfl rfl hm hzero hb)
  | closeHole q =>
      have hx : top.mode.scansExpressions = true := by
        rw [hm]
        cases q <;> rfl
      obtain ⟨string, rest, rfl, hs, hd, hrest⟩ := (h.inExpression hx).under_hole hm
      have hp := (h.popTo_hole hm).1
      have hf : string.mode.scansExpressions = false := by
        rw [hs]
        cases q <;> rfl
      change WellNested (ModeStack.popTo q.string ⟨top, string :: rest, pushes⟩).frames
      rw [hp]
      exact .inside hf (fun hne => absurd hd hne) hrest
  | closeString q => exact h.pop_construct (hm ▸ by cases q <;> rfl)
  | endLine => exact h.pop_construct (hm ▸ rfl)
  | nestComment => exact (h.nest (.inl hm)).1
  | unnestComment => exact (h.nest (.inl hm)).2
  | nestParens => exact (h.nest (.inr hm)).1
  | unnestParens => exact (h.nest (.inr hm)).2

end WellNested

theorem wellNested_next {s t : Scanner} {p : Piece} (h : WellNested s.stack.frames)
    (hn : s.next? grammar = some (p, t)) : WellNested t.stack.frames := by
  obtain ⟨kind, taken, rest, transition, _, he, _, rfl⟩ := exists_effect hn
  exact h.apply he

theorem wellNested_start (text : List Char) : WellNested (Scanner.start text).stack.frames :=
  .expression (.topLevel rfl rfl)

theorem wellNested_after (text : List Char) (count : Nat) :
    WellNested (Scanner.after grammar text count).stack.frames :=
  Scanner.after_preserves (P := fun s => WellNested s.stack.frames) text (wellNested_start text)
    wellNested_next count

/-- A string with a hole in it, and the number of braces that are open in the hole. -/
structure OpenString where
  quote : Quote
  braces : Nat

/-- The modes of such a string, from the bottom to the top. -/
def OpenString.modes (s : OpenString) : List Mode :=
  s.quote.string :: s.quote.interpolation :: List.replicate s.braces .braces

def constructModes : List Mode :=
  [.lineComment, .blockComment, .annotationBlock, .doubleString, .singleString]

theorem mem_constructModes {mode : Mode} (h : mode.scansExpressions = false) :
    mode ∈ constructModes := by
  revert h
  cases mode <;> decide

/-- Modes from the bottom to the top: the top level, strings with holes, and perhaps a construct. -/
def HasShape (modes : List Mode) : Prop :=
  ∃ (strings : List OpenString) (last : Option Mode),
    modes = .topLevel :: strings.flatMap OpenString.modes ++ last.toList ∧
      ∀ mode ∈ last, mode ∈ constructModes

/-- What may lie directly under a frame. -/
structure MayLieOn (upper lower : Frame) : Prop where
  construct : lower.mode ≠ .lineComment ∧ lower.mode ≠ .blockComment ∧
    lower.mode ≠ .annotationBlock
  string : ∀ q : Quote, lower.mode = q.string → upper.mode = q.interpolation
  braces : upper.mode = .braces →
    lower.mode = .braces ∨ ∃ q : Quote, lower.mode = q.interpolation

structure WellShaped (s : ModeStack) : Prop where
  modes : HasShape s.modes
  adjacent : s.frames.IsChain MayLieOn
  topDepth : s.top.depth ≠ 0 → s.top.mode = .blockComment ∨ s.top.mode = .annotationBlock
  belowDepth : ∀ frame ∈ s.below, frame.depth = 0

namespace InExpression

theorem exists_strings {frames : List Frame} (h : InExpression frames) :
    ∃ strings : List OpenString, (frames.map Frame.mode).reverse =
      .topLevel :: strings.flatMap OpenString.modes := by
  induction h with
  | topLevel hm _ => exact ⟨[], by simp [hm]⟩
  | hole q hm _ hs _ _ ih =>
      obtain ⟨strings, he⟩ := ih
      refine ⟨strings ++ [⟨q, 0⟩], ?_⟩
      simp [he, hm, hs, OpenString.modes]
  | brace hm _ hne _ ih =>
      obtain ⟨strings, he⟩ := ih
      rcases List.eq_nil_or_concat' strings with rfl | ⟨init, last, rfl⟩
      · have hlast := congrArg List.getLast? he
        simp only [List.map_cons, List.reverse_cons, List.getLast?_concat, List.flatMap_nil,
          List.getLast?_singleton, Option.some.injEq] at hlast
        exact absurd hlast hne
      · refine ⟨init ++ [⟨last.quote, last.braces + 1⟩], ?_⟩
        rw [List.map_cons, List.reverse_cons, he]
        simp [hm, OpenString.modes, List.replicate_succ']

theorem depth_eq_zero {frames : List Frame} (h : InExpression frames) :
    ∀ frame ∈ frames, frame.depth = 0 := by
  induction h with
  | topLevel _ hd => simpa using hd
  | hole q _ hh _ hs _ ih => simpa [hh, hs] using ih
  | brace _ hd _ _ ih => simpa [hd] using ih

theorem mayLieOn {upper frame : Frame} {below : List Frame} (h : InExpression (frame :: below))
    (hu : upper.mode = .braces → frame.mode ≠ .topLevel) : MayLieOn upper frame := by
  have hx := h.scansExpressions
  constructor
  · refine ⟨?_, ?_, ?_⟩ <;> intro hm <;> rw [hm] at hx <;> cases hx
  · intro q hm
    rw [hm] at hx
    cases q <;> cases hx
  · intro hm
    have hne := hu hm
    cases hf : frame.mode with
    | braces => exact .inl rfl
    | doubleInterpolation => exact .inr ⟨.double, rfl⟩
    | singleInterpolation => exact .inr ⟨.single, rfl⟩
    | topLevel => exact absurd hf hne
    | lineComment | blockComment | doubleString | singleString | annotationBlock =>
        rw [hf] at hx
        cases hx

theorem mayLieOn_head {upper : Frame} {below : List Frame} (h : InExpression below)
    (hu : upper.mode ≠ .braces) : ∀ frame ∈ below.head?, MayLieOn upper frame := by
  intro frame hf
  cases below with
  | nil => simp at hf
  | cons next rest =>
      obtain rfl := Option.some.inj hf
      exact h.mayLieOn (fun hb => absurd hb hu)

theorem isChain {frames : List Frame} (h : InExpression frames) : frames.IsChain MayLieOn := by
  induction h with
  | topLevel _ _ => exact .singleton _
  | @hole hole string below q hm _ hs _ hb ih =>
      have hstring : MayLieOn hole string := by
        constructor
        · rw [hs]
          cases q <;> decide
        · intro r hr
          rw [hm, Quote.string_injective (hs.symm.trans hr)]
        · intro hbraces
          rw [hm] at hbraces
          cases q <;> cases hbraces
      rw [List.isChain_cons_cons, List.isChain_cons]
      refine ⟨hstring, hb.mayLieOn_head ?_, ih⟩
      rw [hs]
      cases q <;> decide
  | brace _ _ hne hb ih =>
      exact List.isChain_cons_cons.mpr ⟨hb.mayLieOn (fun _ => hne), ih⟩

end InExpression

theorem WellNested.wellShaped {s : ModeStack} (h : WellNested s.frames) : WellShaped s := by
  obtain ⟨top, below, pushes⟩ := s
  by_cases hm : top.mode.scansExpressions = true
  · have hx := h.inExpression hm
    obtain ⟨strings, he⟩ := hx.exists_strings
    have hd := hx.depth_eq_zero
    refine ⟨⟨strings, none, ?_, by simp⟩, hx.isChain, ?_, ?_⟩
    · rw [Option.toList_none, List.append_nil]
      exact he
    · intro hne
      exact absurd (hd top List.mem_cons_self) hne
    · intro frame hf
      exact hd frame (List.mem_cons_of_mem _ hf)
  · rw [Bool.not_eq_true] at hm
    obtain ⟨hb, hd⟩ := h.under_construct hm
    obtain ⟨strings, he⟩ := hb.exists_strings
    refine ⟨⟨strings, some top.mode, ?_, ?_⟩, ?_, hd, hb.depth_eq_zero⟩
    · rw [ModeStack.modes, ModeStack.frames, List.map_cons, List.reverse_cons, he]
      rfl
    · intro mode hmode
      obtain rfl := Option.some.inj hmode
      exact mem_constructModes hm
    · refine List.isChain_cons.mpr ⟨hb.mayLieOn_head ?_, hb.isChain⟩
      intro hbraces
      rw [hbraces] at hm
      cases hm

/-- At each point of the scan of any text, the stack has its shape. -/
theorem stack_wellShaped (text : List Char) (count : Nat) :
    WellShaped (Scanner.after grammar text count).stack :=
  (wellNested_after text count).wellShaped

end Liquidsoap
end LiquidsoapHighlight
