import LiquidsoapHighlight.Liquidsoap.Grammar
import LiquidsoapHighlight.Proofs.Scanner.Trace

/-!
What one step of a Liquidsoap scan can do. A step either stays in its mode and gives one of the
mode's own kinds, or it takes one of the signs that open, nest and close constructs.
-/

namespace LiquidsoapHighlight

/-- The mode has the rules of the top level, perhaps after others. -/
def Mode.scansExpressions : Mode → Bool
  | topLevel | doubleInterpolation | singleInterpolation | braces => true
  | _ => false

theorem Pattern.take_of_literal {lit text : List Char} {count : Nat}
    (h : (Pattern.literal lit).matchCount? text = some count) : text.take count = lit := by
  have hc := (Option.filter_eq_some_iff.mp h).1
  simp only [candidate?] at hc
  split at hc
  · next hp =>
      obtain rfl := Option.some.inj hc
      exact (List.prefix_iff_eq_take.mp (List.isPrefixOf_iff_prefix.mp hp)).symm
  · exact absurd hc (by simp)

namespace Liquidsoap

/-- The kinds that a mode gives to what it is made for. -/
def contents : Mode → List TokenKind
  | .lineComment => [.comment, .pragma]
  | .blockComment => [.comment]
  | .doubleString | .singleString => [.string]
  | .annotationBlock => [.pragma]
  | _ => [.plain, .pragma, .string, .keyword, .boolean, .builtinType, .duration, .number,
      .operator, .punctuation, .identifier]

/-- The effect of a step made in a mode: the kind of its token, the characters taken, and the
transition. -/
inductive Effect : Mode → TokenKind → List Char → Transition → Prop where
  | content {mode : Mode} {kind : TokenKind} (taken : List Char) :
      kind ∈ contents mode → Effect mode kind taken .stay
  | openComment {mode : Mode} : mode.scansExpressions = true →
      Effect mode .comment blockCommentOpen (.push .blockComment)
  | openLine {mode : Mode} : mode.scansExpressions = true →
      Effect mode .comment lineCommentOpen (.push .lineComment)
  | openString {mode : Mode} (q : Quote) : mode.scansExpressions = true →
      Effect mode .string [q.char] (.push q.string)
  | openArgsof {mode : Mode} : mode.scansExpressions = true →
      Effect mode .pragma argsofOpen (.push .annotationBlock)
  | openBrace {mode : Mode} : mode.scansExpressions = true → mode ≠ .topLevel →
      Effect mode .punctuation ['{'] (.push .braces)
  | closeBrace : Effect .braces .punctuation ['}'] .pop
  | openHole (q : Quote) :
      Effect q.string .interpolation interpolationOpen (.push q.interpolation)
  | closeHole (q : Quote) :
      Effect q.interpolation .interpolation interpolationClose (.popTo q.string)
  | closeString (q : Quote) : Effect q.string .string [q.char] .pop
  | endLine : Effect .lineComment .plain ['\n'] .pop
  | nestComment : Effect .blockComment .comment blockCommentOpen .nest
  | unnestComment : Effect .blockComment .comment blockCommentClose .unnest
  | nestParens : Effect .annotationBlock .pragma ['('] .nest
  | unnestParens : Effect .annotationBlock .pragma [')'] .unnest

def Acts (mode : Mode) (rule : Rule) : Prop :=
  ∀ (text : List Char) (count : Nat), rule.pattern.matchCount? text = some count →
    Effect mode rule.kind (text.take count) rule.transition

theorem acts_content {mode : Mode} {name : String} {pattern : Pattern} {kind : TokenKind}
    (h : kind ∈ contents mode) : Acts mode ⟨name, pattern, kind, .stay⟩ :=
  fun _ _ _ => .content _ h

theorem acts_literal {mode : Mode} {name : String} {lit : List Char} {kind : TokenKind}
    {t : Transition} (h : Effect mode kind lit t) : Acts mode ⟨name, .literal lit, kind, t⟩ := by
  intro text count hm
  rw [Pattern.take_of_literal hm]
  exact h

theorem acts_topLevelRules {mode : Mode} (h : mode.scansExpressions = true) :
    ∀ rule ∈ topLevelRules, Acts mode rule := by
  have hkinds : contents mode = contents .topLevel := by
    cases mode <;> simp_all [Mode.scansExpressions, contents]
  simp only [topLevelRules, List.forall_mem_cons]
  refine ⟨?_, acts_literal (.openComment h), acts_literal (.openLine h),
    acts_literal (.openString .double h), acts_literal (.openString .single h),
    acts_literal (.openArgsof h), ?_⟩
  · exact acts_content (hkinds ▸ by decide)
  · refine ⟨?_, ?_, ?_, ?_, ?_, ?_, ?_, ?_, ?_, ?_, ?_, ?_, ?_, ?_, ?_, by simp⟩
    all_goals exact acts_content (hkinds ▸ by decide)

theorem acts_stringRules (q : Quote) : ∀ rule ∈ stringRules q, Acts q.string rule := by
  have hkind : TokenKind.string ∈ contents q.string := by
    cases q <;> decide
  simp only [stringRules, List.forall_mem_cons]
  exact ⟨acts_content hkind, acts_literal (.openHole q), acts_literal (.closeString q),
    acts_content hkind, acts_content hkind, by simp⟩

theorem acts_interpolationRules (q : Quote) :
    ∀ rule ∈ interpolationRules q, Acts q.interpolation rule := by
  have hmode : q.interpolation.scansExpressions = true ∧ q.interpolation ≠ .topLevel := by
    cases q <;> decide
  simp only [interpolationRules, List.cons_append, List.nil_append, List.forall_mem_cons]
  exact ⟨acts_literal (.closeHole q), acts_literal (.openBrace hmode.1 hmode.2),
    acts_topLevelRules hmode.1⟩

theorem acts_bracesRules : ∀ rule ∈ bracesRules, Acts .braces rule := by
  simp only [bracesRules, List.cons_append, List.nil_append, List.forall_mem_cons]
  exact ⟨acts_literal (.openBrace rfl (by decide)), acts_literal .closeBrace,
    acts_topLevelRules rfl⟩

theorem acts_rules (mode : Mode) : ∀ rule ∈ rules mode, Acts mode rule := by
  cases mode with
  | topLevel => exact acts_topLevelRules rfl
  | lineComment =>
      simp only [rules, lineCommentRules, List.forall_mem_cons]
      exact ⟨acts_content (by decide), acts_content (by decide), acts_literal .endLine,
        acts_content (by decide), by simp⟩
  | blockComment =>
      simp only [rules, blockCommentRules, List.forall_mem_cons]
      exact ⟨acts_literal .nestComment, acts_literal .unnestComment, acts_content (by decide),
        acts_content (by decide), by simp⟩
  | doubleString => exact acts_stringRules .double
  | singleString => exact acts_stringRules .single
  | doubleInterpolation => exact acts_interpolationRules .double
  | singleInterpolation => exact acts_interpolationRules .single
  | braces => exact acts_bracesRules
  | annotationBlock =>
      simp only [rules, annotationBlockRules, List.forall_mem_cons]
      exact ⟨acts_literal .nestParens, acts_literal .unnestParens, acts_content (by decide),
        acts_content (by decide), by simp⟩

theorem exists_anyChar (mode : Mode) : ∃ rule ∈ rules mode, rule.pattern = .anyChar := by
  cases mode <;>
    simp [rules, topLevelRules, lineCommentRules, blockCommentRules, stringRules,
      interpolationRules, bracesRules, annotationBlockRules]

/-- At a text that is not empty some rule matches, so that the move is that of a rule. -/
theorem exists_firstMatch (mode : Mode) {text : List Char} (h : text ≠ []) :
    ∃ rule ∈ rules mode, ∃ count, Grammar.firstMatch? (rules mode) text = some (rule, count) ∧
      rule.pattern.matchCount? text = some count := by
  obtain ⟨last, hlast, hany⟩ := exists_anyChar mode
  have hcatch : last.pattern.isCatchAll = true := by
    rw [hany]
    rfl
  obtain ⟨rule, count, hf⟩ := Grammar.exists_firstMatch?_of_catchAll ⟨last, hlast, hcatch⟩ h
  obtain ⟨hr, hm⟩ := Grammar.matchCount?_of_firstMatch? hf
  exact ⟨rule, hr, count, hf, hm⟩

theorem move_of_firstMatch {mode : Mode} {text : List Char} {rule : Rule} {count : Nat}
    (h : Grammar.firstMatch? (rules mode) text = some (rule, count)) :
    grammar.move mode text = ⟨rule.kind, count, rule.transition⟩ :=
  Grammar.move_eq rfl h

/-- The effect of the move at a text that is not empty. -/
theorem effect_move (mode : Mode) {text : List Char} (h : text ≠ []) :
    Effect mode (grammar.move mode text).kind (text.take (grammar.move mode text).count)
      (grammar.move mode text).transition := by
  obtain ⟨rule, hr, count, hf, hm⟩ := exists_firstMatch mode h
  rw [move_of_firstMatch hf]
  exact acts_rules mode rule hr text count hm

/-- The top level is never entered again. -/
theorem Effect.push_ne_topLevel {mode target : Mode} {kind : TokenKind} {taken : List Char}
    (h : Effect mode kind taken (.push target)) : target ≠ .topLevel := by
  cases h with
  | openString q | openHole q => cases q <;> decide
  | openComment | openLine | openArgsof | openBrace => decide

theorem move_ne_push_topLevel (mode : Mode) {text : List Char} (h : text ≠ []) :
    (grammar.move mode text).transition ≠ .push .topLevel := by
  have heffect := effect_move mode h
  intro ht
  rw [ht] at heffect
  exact heffect.push_ne_topLevel rfl

theorem exists_rule {s t : Scanner} {p : Piece} (h : s.next? grammar = some (p, t)) :
    ∃ rule ∈ rules s.stack.top.mode, ∃ count, rule.pattern.matchCount? s.rest = some count ∧
      p = ⟨⟨rule.kind, s.offset, s.rest.take count⟩, grammar.construct? s.stack rule.transition⟩ ∧
      t = ⟨s.offset + Text.byteLength (s.rest.take count), s.rest.drop count,
        s.stack.apply rule.transition⟩ := by
  obtain ⟨hne, move, hmove, rfl, rfl⟩ := Scanner.move_of_next? h
  obtain ⟨rule, hr, count, hf, hm⟩ := exists_firstMatch s.stack.top.mode hne
  rw [move_of_firstMatch hf] at hmove
  subst hmove
  exact ⟨rule, hr, count, hm, rfl, rfl⟩

/-- A step, by its effect: what it takes, the piece that it gives, and the state that it leaves. -/
theorem exists_effect {s t : Scanner} {p : Piece} (h : s.next? grammar = some (p, t)) :
    ∃ kind taken rest transition, s.rest = taken ++ rest ∧
      Effect s.stack.top.mode kind taken transition ∧
      p = ⟨⟨kind, s.offset, taken⟩, grammar.construct? s.stack transition⟩ ∧
      t = ⟨s.offset + Text.byteLength taken, rest, s.stack.apply transition⟩ := by
  obtain ⟨rule, hr, count, hm, rfl, rfl⟩ := exists_rule h
  exact ⟨rule.kind, s.rest.take count, s.rest.drop count, rule.transition,
    (List.take_append_drop _ _).symm, acts_rules _ rule hr _ count hm, rfl, rfl⟩

end Liquidsoap
end LiquidsoapHighlight
