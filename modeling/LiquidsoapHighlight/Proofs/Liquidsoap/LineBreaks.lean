import LiquidsoapHighlight.Proofs.Grammar.Following
import LiquidsoapHighlight.Proofs.Grammar.Outline

/-!
What the rules of Liquidsoap take at the end of a line. Most of them stop before a line break, runs
of characters may go on beyond it, and a backslash takes the line break with it. How far a step
comes in a line is therefore settled by the line itself and the line break.
-/

namespace LiquidsoapHighlight
namespace Liquidsoap

theorem matchCount?_escape (c : Char) (rest : List Char) :
    (Pattern.expression escape false).matchCount? ('\\' :: c :: rest) = some 2 := by
  cases rest <;> rfl

theorem matchCount?_escape_of_ne {c : Char} (h : c ≠ '\\') (rest : List Char) :
    (Pattern.expression escape false).matchCount? (c :: rest) = none := by
  rw [Option.eq_none_iff_forall_ne_some]
  intro n hn
  have hstarts := Pattern.starts_of_matchCount? hn
  have hclass : (Pattern.expression escape false).starts c =
      (⟨false, .singleton '\\'⟩ : CharClass).contains c := Bool.or_false _
  rw [hclass, CharClass.contains_singleton] at hstarts
  exact h hstarts

/-- A backslash is taken with the character after it; only one at the very end is left alone. -/
theorem matchCount?_escape_append {text : List Char} (hne : text ≠ []) (hescape : text ≠ ['\\'])
    (rest : List Char) :
    (Pattern.expression escape false).matchCount? (text ++ rest) =
      (Pattern.expression escape false).matchCount? text := by
  obtain ⟨c, text, rfl⟩ := List.exists_cons_of_ne_nil hne
  by_cases hc : c = '\\'
  · subst hc
    cases text with
    | nil => exact absurd rfl hescape
    | cons d text =>
        exact (matchCount?_escape d (text ++ rest)).trans (matchCount?_escape d text).symm
  · exact (matchCount?_escape_of_ne hc _).trans (matchCount?_escape_of_ne hc _).symm

/-- A backslash at the very end is taken by itself. -/
theorem move_backslash (mode : Mode) :
    (grammar.move mode ['\\']).count = 1 ∧ (grammar.move mode ['\\']).transition = .stay := by
  cases mode <;> decide +kernel

theorem ne_backslash_of_move {mode : Mode} {text : List Char}
    (h : (grammar.move mode text).count < text.length ∨
      (grammar.move mode text).transition ≠ .stay) : text ≠ ['\\'] := by
  rintro rfl
  obtain ⟨hcount, hstay⟩ := move_backslash mode
  rw [hcount, hstay] at h
  exact h.elim (Nat.lt_irrefl 1) fun hne => hne rfl

/-- What a rule can do at a line break: stop before it, run over it, or take it after a
backslash. -/
inductive AtLineBreak (rule : Rule) : Prop where
  | stops : rule.pattern.avoids '\n' = true → AtLineBreak rule
  | runs (w : WrittenRegex) (s : CharClass) : rule.IsRun w s → s.contains '\n' = true →
      AtLineBreak rule
  | escapes : rule.pattern = .expression escape false → AtLineBreak rule

theorem isRun_whitespace : Rule.IsRun ⟨"whitespace", .expression whitespace false, .plain, .stay⟩
    whitespace ⟨false, Text.blank⟩ :=
  ⟨rfl, rfl, rfl⟩

/-- Of the rules for expressions only the one for blank space goes over a line break. -/
theorem avoids_topLevelRules : ∀ rule ∈ topLevelRules.tail, rule.pattern.avoids '\n' = true := by
  decide +kernel

theorem atLineBreak_topLevelRules : ∀ rule ∈ topLevelRules, AtLineBreak rule :=
  List.forall_mem_cons.mpr
    ⟨.runs _ _ isRun_whitespace rfl, fun rule hr => .stops (avoids_topLevelRules rule hr)⟩

theorem atLineBreak_stringRules (q : Quote) : ∀ rule ∈ stringRules q, AtLineBreak rule := by
  simp only [stringRules, List.forall_mem_cons]
  refine ⟨.escapes rfl, .stops rfl, .stops rfl, ?_, .stops rfl, by simp⟩
  cases q with
  | double | single => exact .runs _ _ ⟨rfl, rfl, rfl⟩ rfl

theorem atLineBreak_rules (mode : Mode) : ∀ rule ∈ rules mode, AtLineBreak rule := by
  cases mode with
  | topLevel => exact atLineBreak_topLevelRules
  | doubleInterpolation | singleInterpolation | braces =>
      exact List.forall_mem_cons.mpr
        ⟨.stops rfl, List.forall_mem_cons.mpr ⟨.stops rfl, atLineBreak_topLevelRules⟩⟩
  | lineComment =>
      have hstops : ∀ rule ∈ lineCommentRules, rule.pattern.avoids '\n' = true := by
        decide +kernel
      exact fun rule hr => .stops (hstops rule hr)
  | blockComment | annotationBlock =>
      simp only [rules, blockCommentRules, annotationBlockRules, List.forall_mem_cons]
      exact ⟨.stops rfl, .stops rfl, .runs _ _ ⟨rfl, rfl, rfl⟩ rfl, .stops rfl, by simp⟩
  | doubleString => exact atLineBreak_stringRules .double
  | singleString => exact atLineBreak_stringRules .single

/-- Before a line break, what comes after it does not matter to a rule, unless the rule goes over
the line break. -/
theorem AtLineBreak.agreesTo {rule : Rule} (h : AtLineBreak rule) {line : List Char}
    (hne : line ≠ []) (below below' : List Char) :
    rule.AgreesTo line.length (line ++ '\n' :: below) (line ++ '\n' :: below') := by
  cases h with
  | stops hp => exact Rule.agreesTo_of_avoids hp hne below below'
  | runs e s hrun hs => exact hrun.agreesTo hne hs below below'
  | escapes hp =>
      left
      have hnil : line ++ ['\n'] ≠ [] := List.append_ne_nil_of_left_ne_nil hne _
      have hescape : line ++ ['\n'] ≠ ['\\'] := by
        intro he
        have hlast := congrArg List.getLast? he
        rw [List.getLast?_concat] at hlast
        exact absurd (Option.some.inj hlast) (by decide)
      have hshort := matchCount?_escape_append hnil hescape
      simp only [List.append_assoc, List.singleton_append] at hshort
      rw [hp, hshort below, hshort below']

/-- A text that a line break follows is matched as by itself, unless the rule takes all of it. -/
theorem AtLineBreak.stopsBefore {rule : Rule} (h : AtLineBreak rule) {line : List Char}
    (hne : line ≠ []) (hescape : line ≠ ['\\']) (below : List Char) :
    rule.StopsBefore ('\n' :: below) line := by
  cases h with
  | stops hp =>
      exact .inl (Pattern.matchCount?_append (Pattern.stopsAt_of_avoids hp line below) hne)
  | runs e s hrun _ => exact hrun.stopsBefore _ hne
  | escapes hp =>
      left
      rw [hp]
      exact matchCount?_escape_append hne hescape _

/-- A step at a text that a line break follows is the one at the text by itself, unless it goes to
the end of the text and stays in its mode. -/
theorem move_append_lineBreak {mode : Mode} {line : List Char} (hne : line ≠ [])
    (h : (grammar.move mode line).count < line.length ∨ (grammar.move mode line).transition ≠ .stay)
    (below : List Char) :
    grammar.move mode (line ++ '\n' :: below) = grammar.move mode line := by
  have hrules := fun rule hr =>
    (atLineBreak_rules mode rule hr).stopsBefore hne (ne_backslash_of_move h) below
  obtain ⟨rule, _, count, hf, _⟩ := exists_firstMatch mode hne
  rw [move_of_firstMatch hf] at h ⊢
  exact move_of_firstMatch (Grammar.firstMatch?_append hrules hf h)

theorem move_agrees (mode : Mode) {line : List Char} (hne : line ≠ [])
    (below below' : List Char) :
    grammar.move mode (line ++ '\n' :: below) = grammar.move mode (line ++ '\n' :: below') ∨
      line.length < (grammar.move mode (line ++ '\n' :: below)).count ∧
        line.length < (grammar.move mode (line ++ '\n' :: below')).count := by
  have hrules := fun rule hr => (atLineBreak_rules mode rule hr).agreesTo hne below below'
  obtain hsame | ⟨⟨rule, n, hf, hlt⟩, rule', n', hf', hlt'⟩ := Grammar.firstMatch?_agrees hrules
  · left
    obtain ⟨rule, _, n, hf, _⟩ :=
      exists_firstMatch mode (List.append_ne_nil_of_left_ne_nil hne ('\n' :: below))
    rw [move_of_firstMatch hf, move_of_firstMatch (hsame.symm.trans hf)]
  · right
    rw [move_of_firstMatch hf, move_of_firstMatch hf']
    exact ⟨hlt, hlt'⟩

/-- A move that ends in the line does not depend on what is below; otherwise it goes over the end of
the line, whatever is below. -/
theorem move_settled (mode : Mode) (line below below' : List Char) :
    (grammar.move mode (line ++ '\n' :: below') = grammar.move mode (line ++ '\n' :: below) ∧
        (grammar.move mode (line ++ '\n' :: below)).count ≤ line.length) ∨
      line.length < (grammar.move mode (line ++ '\n' :: below)).count ∧
        line.length < (grammar.move mode (line ++ '\n' :: below')).count := by
  by_cases hline : line = []
  · have hpos := fun below => (grammar.move_count_bounds mode (List.cons_ne_nil '\n' below)).1
    rw [hline]
    exact .inr ⟨hpos below, hpos below'⟩
  · obtain hsame | hover := move_agrees mode hline below below'
    · rw [hsame]
      exact (Nat.lt_or_ge line.length _).symm.imp (⟨rfl, ·⟩) fun hlt => ⟨hlt, hlt⟩
    · exact .inr hover

end Liquidsoap
end LiquidsoapHighlight
