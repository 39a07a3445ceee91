import LiquidsoapHighlight.Proofs.Grammar.Outline
import LiquidsoapHighlight.Proofs.Regex.Repetition
import LiquidsoapHighlight.Proofs.Token.MadeOf

/-!
Where expressions are scanned and a word starts, the regular expression literal there is taken, or
else the whole word as one token. Its kind depends on the lists that the word is in, never on those
that a part of it is in.
-/

namespace LiquidsoapHighlight
namespace Liquidsoap

open Grammar (firstMatch?)

/-- The kind of a word. -/
def wordKind (w : List Char) : TokenKind :=
  if keywords.contains w then .keyword
  else if booleans.contains w then .boolean
  else if builtinTypes.contains w then .builtinType
  else .identifier

def wordKinds : List TokenKind := [.keyword, .boolean, .builtinType, .identifier]

theorem wordKind_mem (w : List Char) : wordKind w ∈ wordKinds := by
  unfold wordKind
  split_ifs <;> decide

/-- No word is in two of the lists. -/
theorem lists_disjoint : (∀ w ∈ booleans, w ∉ keywords) ∧
    ∀ w ∈ builtinTypes, w ∉ keywords ∧ w ∉ booleans := by
  decide +kernel

theorem wordKind_iff (w : List Char) :
    (wordKind w = .keyword ↔ w ∈ keywords) ∧ (wordKind w = .boolean ↔ w ∈ booleans) ∧
      (wordKind w = .builtinType ↔ w ∈ builtinTypes) ∧
      (wordKind w = .identifier ↔ w ∉ keywords ∧ w ∉ booleans ∧ w ∉ builtinTypes) := by
  have hboolean := lists_disjoint.1 w
  have htype := lists_disjoint.2 w
  unfold wordKind
  simp only [List.contains_iff_mem]
  -- The lists themselves are of no account from here on.
  generalize keywords = ks, booleans = bs, builtinTypes = ts at *
  split_ifs <;> simp only [true_iff, false_iff] <;> tauto

theorem matchCount?_identifier {text : List Char} (h : Word.run text ≠ []) :
    (Pattern.expression identifier false).matchCount? text = some (Word.run text).length := by
  obtain ⟨c, rest, rfl, hc, hrun⟩ := Word.run_of_ne_nil h
  have hsame : Word.isContinue = wordContinue.contains := funext Word.isContinue_eq_contains
  rw [Word.isStart_eq_contains] at hc
  have hcount : identifier.toExpression.matchCount? (c :: rest) = _ :=
    Regex.matchCount?_seq_star_oneOf wordContinue hc rest
  rw [hrun, hsame]
  simp [Pattern.matchCount?, Pattern.candidate?, hcount]

def regexpRule : Rule := ⟨"regexp", .expression regexp false, .string, .stay⟩

/-- The rules for words of a list. -/
def listRules : List Rule := [
  ⟨"keyword", .keywords keywords, .keyword, .stay⟩,
  ⟨"boolean", .keywords booleans, .boolean, .stay⟩,
  ⟨"builtin-type", .keywords builtinTypes, .builtinType, .stay⟩]

def identifierRule : Rule := ⟨"identifier", .expression identifier false, .identifier, .stay⟩

/-- Apart from the literal and the rules for words, no rule can match where a word starts, but for
the last one. -/
theorem exists_rules_eq {mode : Mode} (h : mode.scansExpressions = true) :
    ∃ front middle back,
      rules mode = front ++ regexpRule :: (listRules ++ (middle ++ identifierRule :: back)) ∧
      ∀ rule ∈ front ++ middle, rule.pattern.startsApart wordStart = true := by
  refine ⟨(rules mode).take ((rules mode).length - 14), (topLevelRules.drop 11).take 8,
    topLevelRules.drop 20, ?_⟩
  cases mode with
  | topLevel | doubleInterpolation | singleInterpolation | braces =>
      exact ⟨rfl, by decide +kernel⟩
  | lineComment | blockComment | doubleString | singleString | annotationBlock => cases h

theorem firstMatch?_word {text : List Char} (h : Word.run text ≠ []) {middle : List Rule}
    (hmiddle : ∀ rule ∈ middle, rule.pattern.matchCount? text = none) (back : List Rule) :
    ∃ name pattern, firstMatch? (listRules ++ (middle ++ identifierRule :: back)) text =
      some (⟨name, pattern, wordKind (Word.run text), .stay⟩, (Word.run text).length) := by
  have hlist := fun words => Pattern.matchCount?_keywords_of_run words h
  simp only [listRules, List.cons_append, List.nil_append]
  unfold wordKind
  split_ifs with hkeyword hboolean htype
  · exact ⟨_, _, Grammar.firstMatch?_cons_some _ ((hlist _).trans (if_pos hkeyword))⟩
  all_goals rw [Grammar.firstMatch?_cons_none _ ((hlist _).trans (if_neg hkeyword))]
  · exact ⟨_, _, Grammar.firstMatch?_cons_some _ ((hlist _).trans (if_pos hboolean))⟩
  all_goals rw [Grammar.firstMatch?_cons_none _ ((hlist _).trans (if_neg hboolean))]
  · exact ⟨_, _, Grammar.firstMatch?_cons_some _ ((hlist _).trans (if_pos htype))⟩
  · rw [Grammar.firstMatch?_cons_none _ ((hlist _).trans (if_neg htype)),
      Grammar.firstMatch?_append_of_none _ hmiddle]
    exact ⟨_, _, Grammar.firstMatch?_cons_some _ (matchCount?_identifier h)⟩

/-- Expressions are scanned at the state, and a word starts there. -/
def AtWord (s : Scanner) : Prop :=
  s.stack.top.mode.scansExpressions = true ∧ s.rest.head?.any Word.isStart = true

/-- The piece is the regular expression literal at the state. -/
structure TakesLiteral (s : Scanner) (p : Piece) : Prop where
  literal : regexpRule.pattern.matchLength? s.rest = some p.token.length
  kind : p.token.kind = .string

/-- The piece is the whole word at the state, of the kind that the lists give it. -/
structure TakesWord (s : Scanner) (p : Piece) : Prop where
  noLiteral : regexpRule.pattern.matchLength? s.rest = none
  text : p.token.text = Word.run s.rest
  identifier : identifierRule.pattern.matchLength? s.rest = some p.token.length
  kind : p.token.kind ∈ wordKinds
  keyword_iff : p.token.kind = .keyword ↔ Word.run s.rest ∈ keywords
  boolean_iff : p.token.kind = .boolean ↔ Word.run s.rest ∈ booleans
  builtinType_iff : p.token.kind = .builtinType ↔ Word.run s.rest ∈ builtinTypes
  identifier_iff : p.token.kind = .identifier ↔ Word.run s.rest ∉ keywords ∧
    Word.run s.rest ∉ booleans ∧ Word.run s.rest ∉ builtinTypes

theorem run_ne_nil {text : List Char} (h : text.head?.any Word.isStart = true) :
    Word.run text ≠ [] := by
  cases text with
  | nil => cases h
  | cons c rest =>
      have hc : Word.isStart c = true := h
      simp [Word.run, hc]

/-- At a word the literal is looked for first, and then the word is taken. -/
theorem firstMatch?_at_word {mode : Mode} {text : List Char} (h : mode.scansExpressions = true)
    (hstart : text.head?.any Word.isStart = true) :
    (∃ count, regexpRule.pattern.matchCount? text = some count ∧
        firstMatch? (rules mode) text = some (regexpRule, count)) ∨
      regexpRule.pattern.matchCount? text = none ∧ ∃ name pattern,
        firstMatch? (rules mode) text =
          some (⟨name, pattern, wordKind (Word.run text), .stay⟩, (Word.run text).length) := by
  obtain ⟨front, middle, back, hrules, hapart⟩ := exists_rules_eq h
  have hword : Word.isStart = wordStart.contains := funext Word.isStart_eq_contains
  have hnone := Pattern.matchCount?_of_apart_rules hapart (hword ▸ hstart)
  rw [List.forall_mem_append] at hnone
  rw [hrules, Grammar.firstMatch?_append_of_none _ hnone.1]
  cases hregexp : regexpRule.pattern.matchCount? text with
  | some count => exact .inl ⟨count, rfl, Grammar.firstMatch?_cons_some _ hregexp⟩
  | none =>
      rw [Grammar.firstMatch?_cons_none _ hregexp]
      exact .inr ⟨rfl, firstMatch?_word (run_ne_nil hstart) hnone.2 back⟩

theorem next_at_word {s : Scanner} (h : AtWord s) :
    ∃ p t, s.next? grammar = some (p, t) ∧ s.rest = p.token.text ++ t.rest ∧
      t.stack = s.stack ∧ (TakesLiteral s p ∨ TakesWord s p) := by
  obtain ⟨hmode, hstart⟩ := h
  have hrun := run_ne_nil hstart
  have hne : s.rest ≠ [] := by
    intro he
    rw [he] at hrun
    exact hrun rfl
  obtain ⟨count, hliteral, hf⟩ | ⟨hliteral, name, pattern, hf⟩ :=
    firstMatch?_at_word hmode hstart
  all_goals
    refine ⟨_, _, Scanner.next?_of_move hne (move_of_firstMatch hf),
      (List.take_append_drop _ _).symm, rfl, ?_⟩
  · exact .inl ⟨congrArg (Option.map _) hliteral, rfl⟩
  · obtain ⟨hkeyword, hboolean, htype, hidentifier⟩ := wordKind_iff (Word.run s.rest)
    exact .inr ⟨congrArg (Option.map _) hliteral, Word.take_run s.rest,
      congrArg (Option.map _) (matchCount?_identifier hrun), wordKind_mem _, hkeyword, hboolean,
      htype, hidentifier⟩

/-- Only the rules for words give these kinds. -/
theorem rule_of_wordKind (mode : Mode) : ∀ rule ∈ rules mode, rule.kind ∈ wordKinds →
    mode.scansExpressions = true ∧ rule.pattern.outline? = some word := by
  cases mode <;> decide +kernel

theorem atWord_of_wordKind {s t : Scanner} {p : Piece} (h : s.next? grammar = some (p, t))
    (hk : p.token.kind ∈ wordKinds) : AtWord s := by
  obtain ⟨rule, hrule, count, hm, rfl, rfl⟩ := exists_rule h
  obtain ⟨hmode, houtline⟩ := rule_of_wordKind _ rule hrule hk
  obtain ⟨first, ⟨c, hc, rfl⟩, more, _, happ⟩ :=
    Language.mem_mul.mp (Pattern.take_mem_outline hm houtline)
  have hsplit := List.take_append_drop count s.rest
  have hhead : s.rest.head? = some c := by
    rw [← hsplit, ← happ]
    rfl
  refine ⟨hmode, ?_⟩
  rw [hhead, Option.any_some, Word.isStart_eq_contains, hc]

theorem takesWord_of_wordKind {s t : Scanner} {p : Piece} (h : s.next? grammar = some (p, t))
    (hk : p.token.kind ∈ wordKinds) : AtWord s ∧ TakesWord s p := by
  have hat := atWord_of_wordKind h hk
  obtain ⟨_, _, hn, _, _, htakes⟩ := next_at_word hat
  obtain ⟨rfl, rfl⟩ := Prod.mk.inj (Option.some.inj (h.symm.trans hn))
  refine ⟨hat, htakes.resolve_left fun hliteral => ?_⟩
  rw [hliteral.kind] at hk
  revert hk
  decide

/-- Where a word starts, either the literal there is taken, or the whole word by the lists that it
is in. Each token of a kind for words in the scan of a text comes from such a step. -/
theorem words_taken_whole :
    (∀ s, AtWord s → ∃ p t, s.next? grammar = some (p, t) ∧
      p.token.start = s.offset ∧ s.rest = p.token.text ++ t.rest ∧ t.stack = s.stack ∧
      (TakesLiteral s p ∨ TakesWord s p)) ∧
    ∀ text, ∀ token ∈ Token.scan grammar text, token.kind ∈ wordKinds →
      ∃ count p t, AtWord (Scanner.after grammar text count) ∧
        (Scanner.after grammar text count).next? grammar = some (p, t) ∧ p.token = token ∧
        TakesWord (Scanner.after grammar text count) p := by
  constructor
  · intro s h
    obtain ⟨p, t, hn, hrest, hstack, htakes⟩ := next_at_word h
    exact ⟨p, t, hn, (Scanner.next?_takes hn).2.2.1, hrest, hstack, htakes⟩
  · intro text token htoken hk
    have hcoalesces : ∀ kind ∈ wordKinds, kind.coalesces = false := by decide
    obtain ⟨count, p, t, hn, rfl⟩ := Token.exists_step_of_mem_scan htoken (hcoalesces _ hk)
    obtain ⟨hat, htakes⟩ := takesWord_of_wordKind hn hk
    exact ⟨count, p, t, hat, hn, rfl, htakes⟩

theorem keyword_prefix_in_hole :
    ∃ p t, (Scanner.after grammar "\"#\x7biffy.in\x7d\"".toList 2).next? grammar = some (p, t) ∧
      p.token.text = "iffy".toList ∧ p.token.kind = .identifier := by
  have hrest : (Scanner.after grammar "\"#\x7biffy.in\x7d\"".toList 2).rest =
      "iffy.in\x7d\"".toList := by
    decide +kernel
  obtain ⟨p, t, hn, _, _, _, hliteral | hword⟩ := words_taken_whole.1 _
    ⟨by decide +kernel, congrArg (fun text => text.head?.any Word.isStart) hrest⟩
  · have hnone : regexpRule.pattern.matchLength? "iffy.in\x7d\"".toList = none := by
      decide +kernel
    have hsome := hliteral.literal
    rw [hrest, hnone] at hsome
    cases hsome
  · have htext := hword.text
    have hkind := hword.identifier_iff
    rw [hrest] at htext hkind
    exact ⟨p, t, hn, htext, hkind.mpr (by decide +kernel)⟩

end Liquidsoap
end LiquidsoapHighlight
