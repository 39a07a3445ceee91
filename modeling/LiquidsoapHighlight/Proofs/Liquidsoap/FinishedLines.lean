import LiquidsoapHighlight.Proofs.Liquidsoap.LineBreaks

/-!
The lines of a text are settled as soon as they are finished. Texts that are alike up to a line
break are scanned by the same steps up to there, so that what is added below changes nothing above.
-/

namespace LiquidsoapHighlight

namespace Text

/-- The offset of the last line break. -/
def lastLineBreak? : List Char → Option Nat
  | [] => none
  | c :: rest =>
    match lastLineBreak? rest with
    | some offset => some (c.utf8Size + offset)
    | none => if c = '\n' then some 0 else none

theorem lastLineBreak?_eq_none {text : List Char} :
    lastLineBreak? text = none ↔ '\n' ∉ text := by
  induction text with
  | nil => simp [lastLineBreak?]
  | cons c rest ih =>
      simp only [lastLineBreak?, List.mem_cons, not_or, ← ih]
      cases lastLineBreak? rest with
      | some offset => simp
      | none => simp [eq_comm]

/-- The last line break has no other one after it. -/
theorem lastLineBreak?_eq_some {text : List Char} {offset : Nat} :
    lastLineBreak? text = some offset ↔
      ∃ above below, text = above ++ '\n' :: below ∧ '\n' ∉ below ∧ offset = byteLength above := by
  induction text generalizing offset with
  | nil => simp [lastLineBreak?]
  | cons c rest ih =>
      constructor
      · intro h
        simp only [lastLineBreak?] at h
        split at h
        · next later hlater =>
            obtain ⟨above, below, rfl, hbelow, rfl⟩ := ih.mp hlater
            exact ⟨c :: above, below, rfl, hbelow, (Option.some.inj h).symm⟩
        · next hnone =>
            obtain ⟨rfl, h⟩ := Option.ite_none_right_eq_some.mp h
            exact ⟨[], rest, rfl, lastLineBreak?_eq_none.mp hnone, (Option.some.inj h).symm⟩
      · rintro ⟨above, below, he, hbelow, rfl⟩
        cases above with
        | nil =>
            obtain ⟨rfl, rfl⟩ := List.cons.inj he
            simp [lastLineBreak?, lastLineBreak?_eq_none.mpr hbelow, byteLength_nil]
        | cons d above =>
            obtain ⟨rfl, hrest⟩ := List.cons.inj he
            have hlast := ih.mpr ⟨above, below, hrest, hbelow, rfl⟩
            simp [lastLineBreak?, hlast, byteLength_cons]

end Text

namespace Scanner
variable {g : Grammar}

/-- The steps that end at an offset or before it, each with the offset and the stack after it. -/
def upTo (offset : Nat) (steps : List (Piece × Scanner)) : List (Piece × Nat × ModeStack) :=
  (steps.filter fun step => step.1.token.stop ≤ offset).map fun step =>
    (step.1, step.2.offset, step.2.stack)

theorem upTo_cons (offset : Nat) (p : Piece) (t : Scanner) (steps : List (Piece × Scanner)) :
    upTo offset ((p, t) :: steps) =
      if p.token.stop ≤ offset then (p, t.offset, t.stack) :: upTo offset steps
      else upTo offset steps := by
  by_cases h : p.token.stop ≤ offset <;> simp [upTo, h]

theorem Trace.offset_lt_stop {s : Scanner} {steps : List (Piece × Scanner)}
    (h : Trace g s steps) : ∀ step ∈ steps, s.offset < step.1.token.stop := by
  induction h with
  | done s => exact List.forall_mem_nil _
  | @step s t p rest hn _ ih =>
      obtain ⟨hne, _, hstart, hoffset⟩ := next?_takes hn
      have hlt : s.offset < p.token.stop := by
        have hpos := Text.byteLength_pos hne
        rw [Token.stop, hstart, Token.length]
        omega
      refine List.forall_mem_cons.mpr ⟨hlt, fun step hstep => ?_⟩
      exact Nat.lt_trans hlt (hoffset ▸ ih step hstep)

/-- No step ends before the offset at which it begins. -/
theorem Trace.upTo_eq_nil {s : Scanner} {steps : List (Piece × Scanner)} {offset : Nat}
    (h : Trace g s steps) (hle : offset ≤ s.offset) : upTo offset steps = [] := by
  have hnone : (steps.filter fun step => step.1.token.stop ≤ offset) = [] := by
    rw [List.filter_eq_nil_iff]
    intro step hstep
    have hlt := h.offset_lt_stop step hstep
    simp only [decide_eq_true_eq]
    omega
  rw [upTo, hnone, List.map_nil]

end Scanner

namespace Liquidsoap

/-- Two scans are at the same place of a line that ends at the offset. -/
structure SameLine (lineEnd : Nat) (s t : Scanner) : Prop where
  offset : t.offset = s.offset
  stack : t.stack = s.stack
  rest : ∃ line below below', s.rest = line ++ '\n' :: below ∧ t.rest = line ++ '\n' :: below' ∧
    lineEnd = s.offset + Text.byteLength line

theorem lt_stop_of_count {s s' : Scanner} {p : Piece} {line below : List Char}
    (hn : s.next? grammar = some (p, s')) (hr : s.rest = line ++ '\n' :: below)
    (hlt : line.length < (grammar.move s.stack.top.mode s.rest).count) :
    s.offset + Text.byteLength line < p.token.stop := by
  obtain ⟨_, _, hstart, _⟩ := Scanner.next?_takes hn
  have hprefix : line ++ ['\n'] <+: p.token.text := by
    rw [Scanner.text_next hn, List.prefix_take_iff, List.length_append, List.length_singleton]
    refine ⟨⟨below, ?_⟩, Nat.succ_le_of_lt hlt⟩
    rw [hr, List.append_assoc, List.singleton_append]
  have hle := Text.byteLength_le_of_prefix hprefix
  have hpos := Text.byteLength_pos (List.cons_ne_nil '\n' [])
  rw [Text.byteLength_append] at hle
  rw [Token.stop, hstart, Token.length]
  omega

namespace SameLine
variable {lineEnd : Nat} {s t s' t' : Scanner} {p q : Piece}

theorem rest_ne_nil (h : SameLine lineEnd s t) : s.rest ≠ [] ∧ t.rest ≠ [] := by
  obtain ⟨_, _, line, below, below', hr, hr', _⟩ := h
  rw [hr, hr']
  exact ⟨List.append_ne_nil_of_right_ne_nil _ (List.cons_ne_nil _ _),
    List.append_ne_nil_of_right_ne_nil _ (List.cons_ne_nil _ _)⟩

/-- A step that ends in the line is the same in both scans; otherwise both go over its end. -/
theorem next (h : SameLine lineEnd s t) (hn : s.next? grammar = some (p, s'))
    (hn' : t.next? grammar = some (q, t')) :
    q = p ∧ SameLine lineEnd s' t' ∨ lineEnd < p.token.stop ∧ lineEnd < q.token.stop := by
  obtain ⟨hne, hne'⟩ := h.rest_ne_nil
  obtain ⟨hoffset, hstack, line, below, below', hr, hr', rfl⟩ := h
  have hsettled := move_settled s.stack.top.mode line below below'
  rw [← hr, ← hr'] at hsettled
  obtain ⟨hsame, hle⟩ | ⟨hlt, hlt'⟩ := hsettled
  · rw [Scanner.next?_of_move_append hr hne rfl hle] at hn
    rw [Scanner.next?_of_move_append hr' hne' (hstack ▸ hsame) hle, hoffset, hstack] at hn'
    obtain ⟨rfl, rfl⟩ := Prod.mk.inj (Option.some.inj hn)
    obtain ⟨rfl, rfl⟩ := Prod.mk.inj (Option.some.inj hn')
    refine .inl ⟨rfl, rfl, rfl, line.drop _, below, below', rfl, rfl, ?_⟩
    rw [Nat.add_assoc, ← Text.byteLength_append, List.take_append_drop]
  · exact .inr ⟨lt_stop_of_count hn hr hlt, hoffset ▸ lt_stop_of_count hn' hr' (hstack ▸ hlt')⟩

theorem upTo_eq {steps steps' : List (Piece × Scanner)} (h : SameLine lineEnd s t)
    (hs : Scanner.Trace grammar s steps) (hend : (s.stateAfter steps).rest = [])
    (ht : Scanner.Trace grammar t steps') (hend' : (t.stateAfter steps').rest = []) :
    Scanner.upTo lineEnd steps = Scanner.upTo lineEnd steps' := by
  induction hs generalizing t steps' with
  | done s => exact absurd hend h.rest_ne_nil.1
  | @step s s' p steps hn hs ih =>
      cases ht with
      | done => exact absurd hend' h.rest_ne_nil.2
      | @step _ t' q steps' hn' ht =>
          rw [Scanner.stateAfter_cons] at hend hend'
          rw [Scanner.upTo_cons, Scanner.upTo_cons]
          obtain ⟨rfl, hnext⟩ | ⟨hlt, hlt'⟩ := h.next hn hn'
          · rw [ih hnext hend ht hend', hnext.offset, hnext.stack]
          · have hstop := (Scanner.next?_takes hn).2.2.2
            have hstop' := (Scanner.next?_takes hn').2.2.2
            rw [if_neg (Nat.not_le.mpr hlt), if_neg (Nat.not_le.mpr hlt'),
              hs.upTo_eq_nil (by omega), ht.upTo_eq_nil (by omega)]

end SameLine

/-- Up to a line break, what comes below it does not matter. -/
theorem upTo_lineBreak (above below below' : List Char) :
    Scanner.upTo (Text.byteLength above) (Scanner.steps grammar (above ++ '\n' :: below)) =
      Scanner.upTo (Text.byteLength above) (Scanner.steps grammar (above ++ '\n' :: below')) := by
  have hsame : SameLine (Text.byteLength above) (.start (above ++ '\n' :: below))
      (.start (above ++ '\n' :: below')) :=
    ⟨rfl, rfl, above, below, below', rfl, rfl, (Nat.zero_add _).symm⟩
  exact hsame.upTo_eq (Scanner.trace_steps grammar _) (Scanner.rest_steps_eq_nil grammar _)
    (Scanner.trace_steps grammar _) (Scanner.rest_steps_eq_nil grammar _)

/-- Appending to a text changes none of the steps up to its last line break. -/
theorem append_keeps_finished_lines {text : List Char} {offset : Nat}
    (h : Text.lastLineBreak? text = some offset) (more : List Char) :
    Scanner.upTo offset (Scanner.steps grammar (text ++ more)) =
      Scanner.upTo offset (Scanner.steps grammar text) := by
  obtain ⟨above, below, rfl, _, rfl⟩ := Text.lastLineBreak?_eq_some.mp h
  rw [List.append_assoc, List.cons_append]
  exact upTo_lineBreak above (below ++ more) below

/-- A string that is still open after a line break. -/
def openString : List Char := "x = \"a\nb".toList

/-- The end of the string is below the line with its quote, of which all five steps stay. -/
theorem openString_keeps_line :
    Text.lastLineBreak? openString = some 6 ∧
      (Scanner.upTo 6 (Scanner.steps grammar openString)).length = 5 ∧
      Scanner.upTo 6 (Scanner.steps grammar (openString ++ "c\"".toList)) =
        Scanner.upTo 6 (Scanner.steps grammar openString) := by
  have hlast : Text.lastLineBreak? openString = some 6 := by decide
  have hkept := append_keeps_finished_lines hlast "c\"".toList
  refine ⟨hlast, ?_, hkept⟩
  decide +kernel

end Liquidsoap
end LiquidsoapHighlight
