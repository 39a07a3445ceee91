import LiquidsoapHighlight.Proofs.Liquidsoap.Comment
import LiquidsoapHighlight.Proofs.Scanner.Origins

/-!
The steps that open comments and annotations. Such a step gives its frame a serial number that no
piece right before it has, so that its piece is not joined with what comes before.
-/

namespace LiquidsoapHighlight

theorem ModeStack.push_of_apply {s : ModeStack} {t : Transition} {mode : Mode}
    (h : s.apply t = s.push mode) : t = .push mode := by
  by_cases ht : ∃ mode, t = .push mode
  · obtain ⟨mode', rfl⟩ := ht
    exact congrArg (fun s => Transition.push s.top.mode) h
  · have hle := size_apply_le (fun mode he => ht ⟨mode, he⟩) s
    rw [h, size_push] at hle
    exact absurd hle (Nat.not_succ_le_self _)

namespace Liquidsoap

/-- In a construct without others in it, the frame at the top is the one that was pushed last. -/
def NewestOnTop (s : ModeStack) : Prop :=
  s.top.mode.isLeaf = true → s.top.serial = s.pushes

theorem newestOnTop_of_expression {s : ModeStack} (h : s.top.mode.scansExpressions = true) :
    NewestOnTop s :=
  fun hm => absurd hm (Mode.not_isLeaf h)

theorem newestOnTop_unnest {s : ModeStack} (hs : WellNested s.frames) (h : NewestOnTop s)
    (hm : s.top.mode.scansExpressions = false) : NewestOnTop s.unnest := by
  cases s.unnest_eq with
  | inl hu =>
      rw [hu]
      exact newestOnTop_of_expression (scansExpressions_pop hs fun hx => by simp [hm] at hx)
  | inr hu =>
      obtain ⟨depth, hu⟩ := hu
      rw [hu]
      exact h

theorem NewestOnTop.apply {s : ModeStack} {kind : TokenKind} {taken : List Char} {t : Transition}
    (h : NewestOnTop s) (hs : WellNested s.frames) (he : Effect s.top.mode kind taken t) :
    NewestOnTop (s.apply t) := by
  generalize hmode : s.top.mode = mode at he
  cases he with
  | content | nestComment | nestParens => exact h
  | openComment | openLine | openString _ | openArgsof | openBrace | openHole _ =>
      exact fun _ => rfl
  | closeBrace => exact newestOnTop_of_expression (scansExpressions_pop hs fun _ => hmode)
  | endLine => exact newestOnTop_of_expression (scansExpressions_pop hs (hmode ▸ nofun))
  | closeString q =>
      refine newestOnTop_of_expression (scansExpressions_pop hs ?_)
      rw [hmode]
      cases q <;> exact nofun
  | closeHole q =>
      intro hm
      change (s.popTo q.string).top.mode.isLeaf = true at hm
      rw [(hs.popTo_hole hmode).2] at hm
      cases q <;> cases hm
  | unnestComment | unnestParens => exact newestOnTop_unnest hs h (hmode ▸ rfl)

theorem newestOnTop_next {s t : Scanner} {p : Piece}
    (h : WellNested s.stack.frames ∧ NewestOnTop s.stack) (hn : s.next? grammar = some (p, t)) :
    WellNested t.stack.frames ∧ NewestOnTop t.stack := by
  obtain ⟨hs, hnewest⟩ := h
  refine ⟨wellNested_next hs hn, ?_⟩
  obtain ⟨kind, taken, rest, transition, _, he, _, rfl⟩ := exists_effect hn
  exact hnewest.apply hs he

theorem newestOnTop_after (text : List Char) (count : Nat) :
    NewestOnTop (Scanner.after grammar text count).stack :=
  (Scanner.after_preserves (P := fun s => WellNested s.stack.frames ∧ NewestOnTop s.stack) text
    ⟨wellNested_start text, newestOnTop_of_expression rfl⟩ newestOnTop_next count).2

theorem not_encloses_of_expression {mode : Mode} (h : mode.scansExpressions = true) :
    grammar.encloses mode = false := by
  cases mode with
  | topLevel | doubleInterpolation | singleInterpolation | braces => decide
  | _ => cases h

/-- In an expression a piece has no construct but one that it opens. -/
theorem construct?_of_expression {s : ModeStack} (h : s.top.mode.scansExpressions = true)
    {t : Transition} {serial : UInt32} (hc : grammar.construct? s t = some serial) :
    serial = s.pushes + 1 ∧ (s.apply t).pushes = s.pushes + 1 := by
  have hopen := not_encloses_of_expression h
  by_cases ht : ∃ mode, t = .push mode
  · obtain ⟨mode, rfl⟩ := ht
    rw [Grammar.construct?_of_push, hopen] at hc
    refine ⟨?_, rfl⟩
    split at hc
    · exact (Option.some.inj hc).symm
    · cases hc
  · rw [Grammar.construct?_of_ne_push _ _ fun mode he => ht ⟨mode, he⟩, hopen] at hc
    cases hc

/-- Comments and annotations are taken in expressions, or in constructs without others in them. -/
theorem Effect.remark {mode : Mode} {kind : TokenKind} {taken : List Char} {t : Transition}
    (h : Effect mode kind taken t) (hk : kind = .comment ∨ kind = .pragma) :
    mode.scansExpressions = true ∨ mode.isLeaf = true ∧ ∀ target, t ≠ .push target := by
  cases h with
  | content _ hc =>
      cases mode with
      | doubleString | singleString =>
          obtain rfl := List.mem_singleton.mp hc
          simp at hk
      | topLevel | doubleInterpolation | singleInterpolation | braces => exact .inl rfl
      | lineComment | blockComment | annotationBlock => exact .inr ⟨rfl, nofun⟩
  | openComment hx | openLine hx | openString _ hx | openArgsof hx | openBrace hx => exact .inl hx
  | closeBrace => exact .inl rfl
  | openHole | closeHole | closeString | endLine => simp at hk
  | nestComment | unnestComment | nestParens | unnestParens => exact .inr ⟨rfl, nofun⟩

/-- A comment or annotation piece is not of the construct that is opened next. -/
theorem construct_ne_next {s t : Scanner} {p : Piece} (hs : NewestOnTop s.stack)
    (hn : s.next? grammar = some (p, t)) (hk : p.token.kind = .comment ∨ p.token.kind = .pragma) :
    p.construct ≠ some (t.stack.pushes + 1) := by
  obtain ⟨kind, taken, rest, transition, _, he, rfl, rfl⟩ := exists_effect hn
  intro hc
  obtain hx | ⟨hm, ht⟩ := he.remark hk
  · obtain ⟨hserial, hpushes⟩ := construct?_of_expression hx hc
    rw [hpushes] at hserial
    exact ModeStack.serial_ne_next _ hserial.symm
  · rw [Grammar.construct?_inside (encloses_of_isLeaf hm) ht, hs hm,
      (ModeStack.apply_keeps ht _).2] at hc
    exact ModeStack.serial_ne_next _ (Option.some.inj hc)

section
variable {text : List Char} {step : Nat}

/-- The step that pushes a frame takes the sign that opens its mode. -/
theorem exists_push {mode : Mode} (h : (Scanner.after grammar text (step + 1)).stack =
      (Scanner.after grammar text step).stack.push mode) :
    ∃ p kind taken,
      (Scanner.steps grammar text)[step]? = some (p, Scanner.after grammar text (step + 1)) ∧
      Effect (Scanner.after grammar text step).stack.top.mode kind taken (.push mode) ∧
      p = ⟨⟨kind, (Scanner.after grammar text step).offset, taken⟩,
        grammar.construct? (Scanner.after grammar text step).stack (.push mode)⟩ := by
  obtain hstay | ⟨hl, _⟩ := Scanner.stack_after_succ grammar text step
  · have hsize := congrArg ModeStack.size (hstay.symm.trans h)
    rw [ModeStack.size_push] at hsize
    exact absurd hsize (Nat.ne_of_lt (Nat.lt_succ_self _))
  obtain ⟨hn, hafter⟩ := Scanner.next?_after (List.getElem?_eq_getElem hl)
  obtain ⟨kind, taken, rest, transition, _, he, hp, ht⟩ := exists_effect hn
  rw [hafter, ht] at h
  obtain rfl := ModeStack.push_of_apply h
  refine ⟨_, kind, taken, ?_, he, hp⟩
  rw [List.getElem?_eq_getElem hl, hafter]
  rfl

/-- The piece before the opener is not joined with it. -/
theorem not_joins_opener {p : Piece} (hk : p.token.kind = .comment ∨ p.token.kind = .pragma)
    (hc : p.construct = some ((Scanner.after grammar text step).stack.pushes + 1))
    (hl : step ≤ (Scanner.steps grammar text).length) :
    ∀ q ∈ (((Scanner.steps grammar text).take step).map Prod.fst).getLast?,
      q.joins p = false := by
  intro q hq
  cases step with
  | zero => cases hq
  | succ step =>
      have hstep := List.getElem?_eq_getElem (Nat.lt_of_succ_le hl)
      obtain ⟨hn, hafter⟩ := Scanner.next?_after hstep
      rw [List.take_add_one, hstep, Option.toList_some, List.map_append, List.map_singleton,
        List.getLast?_concat] at hq
      obtain rfl := Option.some.inj hq
      rw [← Bool.not_eq_true, Token.joins_of_kind hk rfl]
      rintro ⟨hkind, _, hsame⟩
      rw [hc, hafter] at hsame
      exact construct_ne_next (newestOnTop_after text step) hn (hkind.symm ▸ hk) hsame

end
end Liquidsoap
end LiquidsoapHighlight
