import Mathlib.Data.List.TakeWhile
import LiquidsoapHighlight.Proofs.Liquidsoap.Effect
import LiquidsoapHighlight.Proofs.Regex.Outline

/-!
The words that a pattern can take, as those of one expression. What an expression's outline says of
its words then holds of the matches of each pattern: with which characters they can start, and which
rule is therefore the first to match.
-/

namespace LiquidsoapHighlight

namespace Word

open Liquidsoap (wordStart wordContinue)

theorem isAlpha_iff (c : Char) :
    c.isAlpha = true ↔ 'A' ≤ c ∧ c ≤ 'Z' ∨ 'a' ≤ c ∧ c ≤ 'z' := by
  have hupper : c.isUpper = decide ('A' ≤ c ∧ c ≤ 'Z') := rfl
  have hlower : c.isLower = (decide ('a' ≤ c) && decide (c ≤ 'z')) := rfl
  have halpha : c.isAlpha = (c.isUpper || c.isLower) := rfl
  simp only [halpha, hupper, hlower, Bool.or_eq_true, Bool.and_eq_true, decide_eq_true_eq]

theorem isStart_eq_contains (c : Char) : isStart c = wordStart.contains c := by
  rw [Bool.eq_iff_iff, wordStart, CharClass.contains_ofRanges]
  simp [isStart, isAlpha_iff, @le_antisymm_iff Char _ c '_']
  tauto

theorem isContinue_eq_contains (c : Char) : isContinue c = wordContinue.contains c := by
  rw [Bool.eq_iff_iff, wordContinue, CharClass.contains_ofRanges]
  simp [isContinue, Char.isAlphanum, isAlpha_iff, Char.isDigit, Char.le_def,
    @le_antisymm_iff Char _ c '_']
  tauto

theorem run_of_ne_nil {text : List Char} (h : run text ≠ []) :
    ∃ c rest, text = c :: rest ∧ isStart c = true ∧ run text = c :: rest.takeWhile isContinue := by
  cases text with
  | nil => exact absurd rfl h
  | cons c rest =>
      simp only [run] at h ⊢
      split at h
      · next hc =>
          rw [if_pos hc]
          exact ⟨c, rest, rfl, hc, rfl⟩
      · exact absurd rfl h

theorem run_eq_takeWhile {text : List Char} (h : run text ≠ []) :
    run text = text.takeWhile isContinue := by
  obtain ⟨c, rest, rfl, hc, hrun⟩ := run_of_ne_nil h
  rw [hrun, List.takeWhile_cons, if_pos (isContinue_of_isStart hc)]

theorem run_mem_words {text : List Char} (h : run text ≠ []) :
    run text ∈ Liquidsoap.word.words := by
  obtain ⟨c, rest, rfl, hc, hrun⟩ := run_of_ne_nil h
  rw [hrun]
  refine Language.append_mem_mul (a := [c]) ⟨c, ?_, rfl⟩ (Regex.mem_words_star_oneOf ?_)
  · rwa [← isStart_eq_contains]
  · intro d hd
    rw [← isContinue_eq_contains]
    exact List.mem_takeWhile_imp hd

/-- After a word, the word goes on with the characters that belong to it. -/
theorem run_append_of_mem_words {name : List Char} (h : name ∈ Liquidsoap.word.words)
    (rest : List Char) : run (name ++ rest) = name ++ rest.takeWhile isContinue := by
  obtain ⟨c, more, hc, hmore, rfl⟩ := Regex.mem_words_seq_oneOf.mp h
  rw [Regex.mem_words_star_oneOf_iff] at hmore
  have hall : ∀ d ∈ more, isContinue d = true := fun d hd => by
    rw [isContinue_eq_contains, hmore d hd]
  have hstart : isStart c = true := (isStart_eq_contains c).trans hc
  rw [List.cons_append, run, if_pos hstart, List.takeWhile_append_of_pos hall, List.cons_append]

end Word

namespace Pattern

/-- An expression that has all the words which the pattern can take. -/
def outline? : Pattern → Option Regex
  | literal lit => some (Regex.text lit)
  | oneOf [] => none
  | oneOf (lit :: rest) => some (Regex.choice (Regex.text lit) (rest.map Regex.text))
  | keywords _ => some Liquidsoap.word
  | expression e _ => e.regex?
  | anyChar => some (Regex.oneOf .any)

theorem matchCount?_expression {e : Expression} {r : Regex} {bounded : Bool} {text : List Char}
    {n : Nat} (h : (expression e bounded).matchCount? text = some n) (hr : e.regex? = some r) :
    text.take n ∈ r.words := by
  have hc := (Option.filter_eq_some_iff.mp (Option.filter_eq_some_iff.mp h).1).1
  rw [e.matchCount?_of_regex? hr] at hc
  exact Regex.take_mem_words hc

theorem matchCount?_keywords {words : List (List Char)} {text : List Char} {n : Nat}
    (h : (keywords words).matchCount? text = some n) :
    n = (Word.run text).length ∧ Word.run text ∈ words ∧ Word.run text ≠ [] := by
  obtain ⟨hc, hpos⟩ := Option.filter_eq_some_iff.mp h
  simp only [candidate?] at hc
  split at hc
  · next hlisted =>
      obtain rfl := Option.some.inj hc
      refine ⟨rfl, List.contains_iff_mem.mp hlisted, ?_⟩
      rintro he
      simp [he] at hpos
  · cases hc

/-- What is matched is one of the alternatives. -/
theorem take_mem_of_oneOf {alternatives : List (List Char)} {text : List Char} {n : Nat}
    (h : (oneOf alternatives).matchCount? text = some n) : text.take n ∈ alternatives := by
  obtain ⟨alternative, hf, rfl⟩ := Option.map_eq_some_iff.mp (Option.filter_eq_some_iff.mp h).1
  have hfound := List.find?_some hf
  rw [← List.prefix_iff_eq_take.mp (List.isPrefixOf_iff_prefix.mp hfound)]
  exact List.mem_of_find?_eq_some hf

theorem take_mem_outline {p : Pattern} {text : List Char} {n : Nat} {r : Regex}
    (h : p.matchCount? text = some n) (hr : p.outline? = some r) : text.take n ∈ r.words := by
  have hc := (Option.filter_eq_some_iff.mp h).1
  cases p with
  | literal lit =>
      obtain rfl := Option.some.inj hr
      exact Regex.mem_words_text.mpr (take_of_literal h)
  | oneOf alternatives =>
      have hmem := take_mem_of_oneOf h
      cases alternatives with
      | nil => cases hr
      | cons lit rest =>
          obtain rfl := Option.some.inj hr
          refine Regex.mem_words_choice.mpr ⟨Regex.text (text.take n), ?_, ?_⟩
          · exact List.mem_map_of_mem (f := Regex.text) hmem
          · exact Regex.mem_words_text.mpr rfl
  | keywords words =>
      obtain ⟨rfl, _, hne⟩ := matchCount?_keywords h
      obtain rfl := Option.some.inj hr
      rw [Word.take_run]
      exact Word.run_mem_words hne
  | expression e bounded => exact matchCount?_expression h hr
  | anyChar =>
      obtain rfl := Option.some.inj hr
      cases text with
      | nil => cases hc
      | cons c rest =>
          obtain rfl : 1 = n := by simpa [candidate?] using hc
          exact ⟨c, CharClass.contains_any c, rfl⟩

/-- A match of the pattern can start with the character. -/
def starts (c : Char) (p : Pattern) : Bool :=
  p.outline?.all fun r => (r.charsAt 0).any (·.contains c)

theorem starts_of_matchCount? {p : Pattern} {c : Char} {rest : List Char} {n : Nat}
    (h : p.matchCount? (c :: rest) = some n) : p.starts c = true := by
  simp only [starts, Option.all_eq_true, List.any_eq_true]
  intro r hr
  refine Regex.anyContains_charsAt (take_mem_outline h hr) 0 c ?_
  obtain ⟨m, rfl⟩ := Nat.exists_eq_succ_of_ne_zero (Nat.ne_of_gt (matchCount?_pos h))
  rfl

/-- No match of the pattern starts with a character of the class. -/
def startsApart (s : CharClass) (p : Pattern) : Bool :=
  p.outline?.any fun r => (r.charsAt 0).all (·.disjoint s)

theorem matchCount?_of_startsApart {p : Pattern} {s : CharClass} (h : p.startsApart s = true)
    {c : Char} (hc : s.contains c = true) (rest : List Char) :
    p.matchCount? (c :: rest) = none := by
  rw [Option.eq_none_iff_forall_ne_some]
  intro n hn
  obtain ⟨r, hr, hapart⟩ := (Option.any_eq_true ..).mp h
  have hstarts := starts_of_matchCount? hn
  rw [starts, hr, Option.all_some, List.any_eq_true] at hstarts
  obtain ⟨t, ht, htc⟩ := hstarts
  rw [CharClass.not_contains_of_disjoint (List.all_eq_true.mp hapart t ht) htc] at hc
  cases hc

theorem matchCount?_of_apart_rules {s : CharClass} {rules : List Rule}
    (h : ∀ rule ∈ rules, rule.pattern.startsApart s = true) {text : List Char}
    (hs : text.head?.any s.contains = true) :
    ∀ rule ∈ rules, rule.pattern.matchCount? text = none := by
  intro rule hrule
  cases text with
  | nil => cases hs
  | cons c rest => exact matchCount?_of_startsApart (h rule hrule) hs rest

/-- A list of words is matched by the whole word at the start of a text, or not at all. -/
theorem matchCount?_keywords_of_run (words : List (List Char)) {text : List Char}
    (h : Word.run text ≠ []) : (keywords words).matchCount? text =
      if words.contains (Word.run text) then some (Word.run text).length else none := by
  have hpos := List.length_pos_iff.mpr h
  simp only [matchCount?, candidate?]
  split <;> simp [hpos]

end Pattern

namespace Grammar

/-- The first rule that can start with a text's first character is the first match, if it does. -/
theorem firstMatch?_of_find? {rules : List Rule} {c : Char} {rest : List Char}
    {rule : Rule} {count : Nat} (h : rules.find? (fun r => r.pattern.starts c) = some rule)
    (hm : rule.pattern.matchCount? (c :: rest) = some count) :
    firstMatch? rules (c :: rest) = some (rule, count) := by
  induction rules with
  | nil => cases h
  | cons first rules ih =>
      rw [List.find?_cons] at h
      split at h
      · obtain rfl := Option.some.inj h
        exact firstMatch?_cons_some rules hm
      · next hc =>
          have hnone : first.pattern.matchCount? (c :: rest) = none := by
            rw [Option.eq_none_iff_forall_ne_some]
            intro n hn
            rw [Pattern.starts_of_matchCount? hn] at hc
            cases hc
          rw [firstMatch?_cons_none rules hnone]
          exact ih h

theorem move_of_find? {g : Grammar} {mode : Mode} {rules : List Rule} {c : Char}
    {rest : List Char} {count : Nat} (rule : Rule) (hg : g.rules? mode = some rules)
    (h : rules.find? (fun r => r.pattern.starts c) = some rule)
    (hm : rule.pattern.matchCount? (c :: rest) = some count) :
    g.move mode (c :: rest) = ⟨rule.kind, count, rule.transition⟩ :=
  move_eq hg (firstMatch?_of_find? h hm)

end Grammar

end LiquidsoapHighlight
