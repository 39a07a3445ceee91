import LiquidsoapHighlight.Proofs.Grammar.Outline
import LiquidsoapHighlight.Proofs.Regex.Longest

/-!
Rules of which the first that matches takes the most. A pattern outlasts another if at no text where
both match the other one takes more; that it does can be read off the patterns. What a single
expression takes is its longest word, where no thread is given up in its matching.
-/

namespace LiquidsoapHighlight

namespace Regex

/-- All words are of word characters. -/
def staysInWord (r : Regex) : Bool :=
  r.chars.all (·.disjoint Liquidsoap.wordContinue.complement)

theorem isContinue_of_staysInWord {r : Regex} (h : r.staysInWord = true) {w : List Char}
    (hw : w ∈ r.words) : ∀ c ∈ w, Word.isContinue c = true := by
  intro c hc
  obtain ⟨s, hs, hsc⟩ := anyContains_chars hw c hc
  have hout := CharClass.not_contains_of_disjoint (List.all_eq_true.mp h s hs) hsc
  rw [CharClass.contains_complement, Bool.not_eq_false'] at hout
  rw [Word.isContinue_eq_contains, hout]

end Regex

namespace WrittenRegex

/-- The expression takes its longest word at the start of a text, which is not empty. -/
def takesLongest (e : WrittenRegex) : Bool :=
  e.regex.takesLongest && 0 < e.regex.fewest

theorem matchCount?_eq_some_iff {e : WrittenRegex} (h : e.takesLongest = true) {text : List Char}
    {n : Nat} : e.toExpression.matchCount? text = some n ↔
      ∃ w, LongestWord e.regex.words text w ∧ n = w.length := by
  rw [takesLongest, Bool.and_eq_true] at h
  rw [e.matchCount?_toExpression, Regex.matchCount?_eq_some_iff h.1]

theorem length_pos_of_mem_words {e : WrittenRegex} (h : e.takesLongest = true) {w : List Char}
    (hw : w ∈ e.regex.words) : 0 < w.length := by
  rw [takesLongest, Bool.and_eq_true, decide_eq_true_eq] at h
  exact Nat.lt_of_lt_of_le h.2 (Regex.fewest_le_length hw)

end WrittenRegex

namespace Pattern

theorem matchCount?_longest {e : WrittenRegex} (h : e.takesLongest = true) {text : List Char}
    {n : Nat} : (expression e false).matchCount? text = some n ↔
      ∃ w, LongestWord e.regex.words text w ∧ n = w.length := by
  simp only [matchCount?, candidate?, Bool.false_and, Bool.not_false, Option.filter_eq_some_iff,
    e.matchCount?_eq_some_iff h, decide_eq_true_eq, and_true]
  refine ⟨And.left, fun hn => ⟨hn, ?_⟩⟩
  obtain ⟨w, hw, rfl⟩ := hn
  exact e.length_pos_of_mem_words h hw.mem

/-- A word that the text starts with is no longer than what is taken. -/
theorem exists_le_matchCount? {e : WrittenRegex} (h : e.takesLongest = true) {w text : List Char}
    (hw : w ∈ e.regex.words) (htext : w <+: text) :
    ∃ n, (expression e false).matchCount? text = some n ∧ w.length ≤ n := by
  have hlongest := h
  rw [WrittenRegex.takesLongest, Bool.and_eq_true] at hlongest
  obtain ⟨n, hn, hle⟩ := Regex.exists_le_matchCount? hlongest.1 hw htext
  rw [Regex.matchCount?_eq_some_iff hlongest.1] at hn
  exact ⟨n, (matchCount?_longest h).mpr hn, hle⟩

/-- A bounded expression for words takes all word characters at the start of a text, or nothing. -/
theorem matchCount?_bounded {e : WrittenRegex} (h : e.takesLongest = true)
    (hstay : e.regex.staysInWord = true) {text : List Char} {n : Nat} :
    (expression e true).matchCount? text = some n ↔
      text.takeWhile Word.isContinue ∈ e.regex.words ∧
        n = (text.takeWhile Word.isContinue).length := by
  simp only [matchCount?, candidate?, Bool.true_and, Option.filter_eq_some_iff,
    e.matchCount?_eq_some_iff h, decide_eq_true_eq, Bool.not_eq_true']
  constructor
  · rintro ⟨⟨⟨w, hw, rfl⟩, hstop⟩, _⟩
    -- None of the characters after the word belongs to the run, so that the word is the run.
    obtain ⟨rest, rfl⟩ := hw.starts
    rw [List.drop_left] at hstop
    rw [Text.takeWhile_append_of_stop (Regex.isContinue_of_staysInWord hstay hw.mem) hstop]
    exact ⟨hw.mem, rfl⟩
  · rintro ⟨hmem, rfl⟩
    have hlongest : LongestWord e.regex.words text (text.takeWhile Word.isContinue) := by
      refine ⟨hmem, List.takeWhile_prefix _, fun v hv hvt => ?_⟩
      obtain ⟨more, rfl⟩ := hvt
      rw [List.takeWhile_append_of_pos (Regex.isContinue_of_staysInWord hstay hv),
        List.length_append]
      exact Nat.le_add_right _ _
    exact ⟨⟨⟨_, hlongest, rfl⟩, Text.stops_after_takeWhile _ text⟩,
      e.length_pos_of_mem_words h hmem⟩

/-- The pattern takes the whole word at the start of a text. -/
def takesWord : Pattern → Bool
  | keywords _ => true
  | _ => false

/-- The pattern takes no more than the word at the start of a text. -/
def staysInWord : Pattern → Bool
  | keywords _ => true
  | expression e _ => e.regex?.any Regex.staysInWord
  | _ => false

/-- Where both patterns match, the second takes no more than the first. -/
def outlasts (p q : Pattern) : Bool :=
  p.takesWord && q.staysInWord ||
    p.outline?.any fun r => q.outline?.any r.outlasts

theorem le_length_run {p : Pattern} {text : List Char} {n : Nat}
    (h : p.matchCount? text = some n) (hp : p.staysInWord = true) (hne : Word.run text ≠ []) :
    n ≤ (Word.run text).length := by
  cases p with
  | literal _ | oneOf _ | anyChar => cases hp
  | keywords words => exact Nat.le_of_eq (matchCount?_keywords h).1
  | expression e bounded =>
      obtain ⟨r, hr, hstays⟩ := (Option.any_eq_true ..).mp hp
      have hword := matchCount?_expression h hr
      have hall := Regex.isContinue_of_staysInWord hstays hword
      have hsame : (text.takeWhile Word.isContinue).take n = text.take n := by
        rw [List.take_takeWhile, List.takeWhile_eq_self_iff.mpr hall]
      have hlength := congrArg List.length hsame
      rw [List.length_take, List.length_take_of_le (matchCount?_le_length h)] at hlength
      rw [Word.run_eq_takeWhile hne]
      omega

/-- A pattern that outlasts another takes at least as much at each text where both match. -/
theorem le_of_outlasts {p q : Pattern} (h : p.outlasts q = true) {text : List Char} {n m : Nat}
    (hp : p.matchCount? text = some n) (hq : q.matchCount? text = some m) : m ≤ n := by
  simp only [outlasts, Bool.or_eq_true, Bool.and_eq_true] at h
  cases h with
  | inl hword =>
      cases p with
      | literal _ | oneOf _ | expression _ _ | anyChar => cases hword.1
      | keywords words =>
          obtain ⟨rfl, _, hne⟩ := matchCount?_keywords hp
          exact le_length_run hq hword.2 hne
  | inr houtline =>
      simp only [Option.any_eq_true] at houtline
      obtain ⟨r, hr, s, hs, hrs⟩ := houtline
      have hle := Regex.length_le_of_outlasts hrs (take_mem_outline hp hr) (take_mem_outline hq hs)
        (List.take_prefix n text) (List.take_prefix m text)
      rwa [List.length_take_of_le (matchCount?_le_length hp),
        List.length_take_of_le (matchCount?_le_length hq)] at hle

end Pattern

namespace Grammar

theorem head?_matching (rules : List Rule) (text : List Char) :
    (matching rules text).head? = (firstMatch? rules text).map fun found =>
      (found.1, Text.byteLength (text.take found.2)) := by
  rw [matching, List.head?_filterMap, firstMatch?, List.map_findSome?]
  congr 1
  funext rule
  simp [Pattern.matchLength?, Function.comp_def]

/-- Where each rule outlasts those after it, the first match is the longest. -/
theorem count_le_firstMatch {rules : List Rule} {text : List Char}
    (h : rules.Pairwise fun rule later => rule.pattern.outlasts later.pattern = true)
    {rule : Rule} {count : Nat} (hf : firstMatch? rules text = some (rule, count)) :
    ∀ other ∈ rules, ∀ n, other.pattern.matchCount? text = some n → n ≤ count := by
  induction rules with
  | nil => cases hf
  | cons first rules ih =>
      obtain ⟨hfirst, hrules⟩ := List.pairwise_cons.mp h
      cases hm : first.pattern.matchCount? text with
      | none =>
          rw [firstMatch?_cons_none rules hm] at hf
          refine List.forall_mem_cons.mpr ⟨?_, ih hrules hf⟩
          intro n hn
          rw [hm] at hn
          cases hn
      | some taken =>
          rw [firstMatch?_cons_some rules hm] at hf
          obtain ⟨rfl, rfl⟩ := Prod.mk.inj (Option.some.inj hf)
          refine List.forall_mem_cons.mpr ⟨?_, ?_⟩
          · intro n hn
            rw [hm] at hn
            exact Nat.le_of_eq (Option.some.inj hn).symm
          · intro later hl n hn
            exact Pattern.le_of_outlasts (hfirst later hl) hm hn

end Grammar

end LiquidsoapHighlight
