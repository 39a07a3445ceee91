import LiquidsoapHighlight.Proofs.Liquidsoap.LineBreaks

/-!
Steps of a text that stands in a hole. What ends the hole and its string changes no step before it,
but for a step that takes all of the text and leaves a construct open.
-/

namespace LiquidsoapHighlight

namespace Liquidsoap

/-- What ends a hole and the string that it is in. -/
def holeEnd (q : Quote) : List Char := interpolationClose ++ [q.char]

theorem endsBefore_rules {mode : Mode} (h : mode.scansExpressions = true) (q : Quote) :
    ∀ rule ∈ rules mode, rule.pattern.endsBefore '}' [q.char] = true := by
  cases mode with
  | topLevel | doubleInterpolation | singleInterpolation | braces =>
      cases q <;> decide +kernel
  | _ => cases h

theorem stopsBefore_rules {mode : Mode} (h : mode.scansExpressions = false) (q : Quote)
    {text : List Char} (hne : text ≠ []) (hescape : text ≠ ['\\']) :
    ∀ rule ∈ rules mode, rule.StopsBefore (holeEnd q) text := by
  have hends : ∀ rule : Rule, rule.pattern.endsBefore '}' [q.char] = true →
      rule.StopsBefore (holeEnd q) text :=
    fun rule hr => .inl (Pattern.matchCount?_append (Pattern.stopsAt_of_endsBefore hr text) hne)
  have hruns : ∀ {w : WrittenRegex} {s : CharClass} (name : String) (kind : TokenKind),
      w.regex = .plus (.oneOf s) →
      Rule.StopsBefore (holeEnd q) text ⟨name, .expression w false, kind, .stay⟩ :=
    fun _ _ hr => Rule.IsRun.stopsBefore ⟨rfl, hr, rfl⟩ (holeEnd q) hne
  have hstrings : ∀ r : Quote, ∀ rule ∈ stringRules r, rule.StopsBefore (holeEnd q) text := by
    intro r
    simp only [stringRules, List.forall_mem_cons]
    refine ⟨.inl (matchCount?_escape_append hne hescape (holeEnd q)), hends _ ?_, hends _ ?_, ?_,
      hends _ rfl, by simp⟩
    · rfl
    · rfl
    · cases r <;> exact hruns _ _ rfl
  cases mode with
  | lineComment =>
      simp only [rules, lineCommentRules, List.forall_mem_cons]
      refine ⟨hends _ ?_, hruns _ _ rfl, hends _ rfl, hends _ rfl, by simp⟩
      cases q <;> decide +kernel
  | blockComment =>
      simp only [rules, blockCommentRules, List.forall_mem_cons]
      exact ⟨hends _ rfl, hends _ rfl, hruns _ _ rfl, hends _ rfl, by simp⟩
  | doubleString => exact hstrings .double
  | singleString => exact hstrings .single
  | annotationBlock =>
      simp only [rules, annotationBlockRules, List.forall_mem_cons]
      exact ⟨hends _ rfl, hends _ rfl, hruns _ _ rfl, hends _ rfl, by simp⟩
  | topLevel | doubleInterpolation | singleInterpolation | braces => cases h

/-- A step takes the same before the end of a hole as at the end of a text, unless it takes all of
the text inside of a construct that stays open. -/
theorem move_append (q : Quote) {mode : Mode} {text : List Char} (hne : text ≠ [])
    (h : mode.scansExpressions = true ∨ (grammar.move mode text).count < text.length ∨
      (grammar.move mode text).transition ≠ .stay) :
    grammar.move mode (text ++ holeEnd q) = grammar.move mode text := by
  obtain ⟨rule, _, count, hf, _⟩ := exists_firstMatch mode hne
  have hmove := move_of_firstMatch hf
  rw [hmove]
  refine move_of_firstMatch ?_
  cases hx : mode.scansExpressions with
  | true =>
      have hall : ∀ other ∈ rules mode, other.pattern.matchCount? (text ++ holeEnd q) =
          other.pattern.matchCount? text :=
        fun other ho => Pattern.matchCount?_append
          (Pattern.stopsAt_of_endsBefore (endsBefore_rules hx q other ho) text) hne
      exact (Grammar.firstMatch?_congr hall).trans hf
  | false =>
      have hcut := h.resolve_left (by rw [hx]; decide)
      have hescape := ne_backslash_of_move hcut
      rw [hmove] at hcut
      exact Grammar.firstMatch?_append (stopsBefore_rules hx q hne hescape) hf hcut

end Liquidsoap
end LiquidsoapHighlight
