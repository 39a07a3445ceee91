import LiquidsoapHighlight.Proofs.Liquidsoap.Effect
import LiquidsoapHighlight.Proofs.Regex.Outline
import LiquidsoapHighlight.Proofs.Regex.Repetition

/-!
Matches that do not depend on what follows. Where a text goes on with characters in which no match
can end, or with one that no match can take, the match is the one at the text by itself.
-/

namespace LiquidsoapHighlight

namespace Regex

open CharClass (AnyContains)

theorem isBoundary_of_not_wordChar {c : Char} (h : Text.wordChars.contains c = false)
    (before : Option Char) : isBoundary before (some c) = isBoundary before none := by
  simp [isBoundary, h]

theorem follow_eq_or (threads : List Thread) (before : Option Char) (count : Nat)
    (best : Option Nat) (text : List Char) :
    follow threads before count best text = best ∨
      ∃ taken, follow threads before count best text = some (count + taken) := by
  induction text generalizing threads before count best with
  | nil =>
      simp only [follow]
      split
      · exact .inr ⟨0, rfl⟩
      · exact .inl rfl
  | cons c rest ih =>
      simp only [follow]
      generalize frontier (isBoundary before (some c)) threads = f
      have hnow : (if f.accepted = true then some count else best) = best ∨
          ∃ taken, (if f.accepted = true then some count else best) = some (count + taken) := by
        split
        · exact .inr ⟨0, rfl⟩
        · exact .inl rfl
      split
      · exact hnow
      · obtain hb | ⟨taken, ht⟩ := ih (f.advance c) (some c) (count + 1)
          (if f.accepted = true then some count else best)
        · rw [hb]
          exact hnow
        · exact .inr ⟨taken + 1, by rw [ht]; congr 1; omega⟩

/-- A text that goes on is matched as by itself, or the match takes some of what it goes on with. -/
theorem follow_append {c : Char} (hc : Text.wordChars.contains c = false) (tail : List Char)
    (threads : List Thread) (before : Option Char) (count : Nat) (best : Option Nat)
    (text : List Char) :
    follow threads before count best (text ++ c :: tail) = follow threads before count best text ∨
      ∃ more, 0 < more ∧ follow threads before count best (text ++ c :: tail) =
        some (count + text.length + more) := by
  induction text generalizing threads before count best with
  | nil =>
      simp only [List.nil_append, follow, isBoundary_of_not_wordChar hc]
      generalize frontier (isBoundary before none) threads = f
      split
      · exact .inl rfl
      · obtain hb | ⟨taken, ht⟩ := follow_eq_or (f.advance c) (some c) (count + 1)
          (if f.accepted = true then some count else best) tail
        · exact .inl hb
        · exact .inr ⟨taken + 1, Nat.succ_pos _, by rw [ht]; simp; omega⟩
  | cons d text ih =>
      simp only [List.cons_append, follow]
      split
      · exact .inl rfl
      · obtain hsame | ⟨more, hpos, hm⟩ := ih _ (some d) (count + 1) _
        · exact .inl hsame
        · exact .inr ⟨more, hpos, by rw [hm, List.length_cons]; congr 1; omega⟩

/-- No word of the expression takes all of the text and some of what comes after it. -/
def StopsAt (r : Regex) (text rest : List Char) : Prop :=
  ∀ more ≠ [], more <+: rest → text ++ more ∉ r.words

/-- No word of the expression ends with one of the characters. -/
def endsBefore (r : Regex) (ending : List Char) : Bool :=
  ending.all fun c => r.lasts.all fun s => !s.contains c

/-- No word of the expression has the character. -/
def avoids (r : Regex) (c : Char) : Bool :=
  r.chars.all fun s => !s.contains c

theorem stopsAt_of_endsBefore {r : Regex} {rest : List Char} (h : r.endsBefore rest = true)
    (text : List Char) : r.StopsAt text rest := by
  intro more hne hmore hw
  have hend : (text ++ more).getLast? = some (more.getLast hne) := by
    rw [List.getLast?_append_of_ne_nil _ hne, List.getLast?_eq_some_getLast hne]
  obtain ⟨s, hs, hc⟩ := anyContains_lasts hw _ hend
  have hlast := hmore.subset (List.getLast_mem hne)
  have hout := List.all_eq_true.mp (List.all_eq_true.mp h _ hlast) s hs
  rw [hc] at hout
  cases hout

theorem not_mem_of_avoids {r : Regex} {c : Char} (h : r.avoids c = true) {w : List Char}
    (hw : w ∈ r.words) : c ∉ w := by
  intro hc
  obtain ⟨s, hs, hcontains⟩ := anyContains_chars hw c hc
  have hout := List.all_eq_true.mp h s hs
  rw [hcontains] at hout
  cases hout

theorem stopsAt_of_avoids {r : Regex} {c : Char} (h : r.avoids c = true) (text tail : List Char) :
    r.StopsAt text (c :: tail) := by
  intro more hne hmore hw
  cases more with
  | nil => exact hne rfl
  | cons d more =>
      obtain ⟨rfl, _⟩ := List.cons_prefix_cons.mp hmore
      exact not_mem_of_avoids h hw (List.mem_append_right text List.mem_cons_self)

/-- The match in a text that goes on is a word that takes some of what the text goes on with, unless
it is the match in the text by itself. -/
theorem matchCount?_append_or {c : Char} (hc : Text.wordChars.contains c = false)
    (tail : List Char) (r : Regex) (text : List Char) :
    r.matchCount? (text ++ c :: tail) = r.matchCount? text ∨
      ∃ more ≠ [], more <+: c :: tail ∧ text ++ more ∈ r.words := by
  obtain hsame | ⟨n, hpos, hm⟩ := follow_append hc tail [[.start [] r]] none 0 none text
  · exact .inl hsame
  · have hword := take_mem_words hm
    rw [Nat.zero_add, List.take_length_add_append] at hword
    refine .inr ⟨(c :: tail).take n, ?_, List.take_prefix _ _, hword⟩
    simp [Nat.ne_of_gt hpos]

end Regex

theorem Expression.matchCount?_append {e : Expression} {r : Regex} {c : Char}
    {text tail : List Char} (hr : e.regex? = some r) (hc : Text.wordChars.contains c = false)
    (hstops : r.StopsAt text (c :: tail)) :
    e.matchCount? (text ++ c :: tail) = e.matchCount? text := by
  rw [matchCount?_of_regex? hr, matchCount?_of_regex? hr]
  refine (Regex.matchCount?_append_or hc tail r text).resolve_right ?_
  rintro ⟨more, hne, hmore, hword⟩
  exact hstops more hne hmore hword

theorem Word.run_append {c : Char} (hc : isContinue c = false) (tail : List Char)
    {text : List Char} (hne : text ≠ []) : run (text ++ c :: tail) = run text := by
  cases text with
  | nil => exact absurd rfl hne
  | cons d text =>
      have hrest : (text ++ c :: tail).takeWhile isContinue = text.takeWhile isContinue := by
        rw [List.takeWhile_append, List.takeWhile_cons_of_neg (by rw [hc]; decide),
          List.append_nil]
        split
        · next he => exact ((List.takeWhile_prefix _).eq_of_length he).symm
        · rfl
      simp only [List.cons_append, run, hrest]

/-- A text that goes on with another character begins with no more than by itself. -/
theorem isPrefixOf_append_cons {lit text : List Char} {c : Char} (hc : lit.tail.contains c = false)
    (tail : List Char) (hne : text ≠ []) :
    lit.isPrefixOf (text ++ c :: tail) = lit.isPrefixOf text := by
  rw [Bool.eq_iff_iff, List.isPrefixOf_iff_prefix, List.isPrefixOf_iff_prefix]
  refine ⟨fun h => ?_, fun h => h.trans (List.prefix_append _ _)⟩
  rcases List.prefix_or_prefix_of_prefix h (List.prefix_append text (c :: tail)) with hp | hp
  · exact hp
  · obtain ⟨more, rfl⟩ := hp
    cases more with
    | nil => rw [List.append_nil]
    | cons d more =>
        obtain ⟨rfl, _⟩ := List.cons_prefix_cons.mp ((List.prefix_append_right_inj text).mp h)
        rw [List.tail_append_of_ne_nil hne] at hc
        simp at hc

namespace Pattern

/-- No match of the pattern takes some of the text and some of what comes after it. -/
def StopsAt (text : List Char) (c : Char) (tail : List Char) : Pattern → Prop
  | literal lit => lit.tail.contains c = false
  | oneOf alternatives => ∀ alternative ∈ alternatives, alternative.tail.contains c = false
  | keywords _ => Word.isContinue c = false
  | expression e _ => Text.wordChars.contains c = false ∧ Word.isContinue c = false ∧
      ∃ r, e.regex? = some r ∧ r.StopsAt text (c :: tail)
  | anyChar => True

theorem matchCount?_append {p : Pattern} {c : Char} {text tail : List Char}
    (h : p.StopsAt text c tail) (hne : text ≠ []) :
    p.matchCount? (text ++ c :: tail) = p.matchCount? text := by
  refine congrArg (Option.filter (0 < ·)) ?_
  cases p with
  | literal lit => simp only [candidate?, isPrefixOf_append_cons h tail hne]
  | oneOf alternatives =>
      have hfilter : alternatives.filter (fun lit => lit.isPrefixOf (text ++ c :: tail)) =
          alternatives.filter fun lit => lit.isPrefixOf text :=
        List.filter_congr fun lit hl => isPrefixOf_append_cons (h lit hl) tail hne
      simp only [candidate?, ← List.head?_filter, hfilter]
  | keywords words => simp only [candidate?, Word.run_append h tail hne]
  | expression e bounded =>
      obtain ⟨hword, hcont, r, hr, hstops⟩ := h
      simp only [candidate?, e.matchCount?_append hr hword hstops]
      cases hn : e.matchCount? text with
      | none => rfl
      | some n =>
          -- After the match comes what came before, or what the text now goes on with.
          have hnext : ((text ++ c :: tail).drop n).head?.any Word.isContinue =
              (text.drop n).head?.any Word.isContinue := by
            rw [List.drop_append_of_le_length (e.matchCount?_le_length hn), List.head?_append]
            cases (text.drop n).head? with
            | some d => rfl
            | none => exact hcont
          simp only [Option.filter_some, hnext]
  | anyChar =>
      cases text with
      | nil => exact absurd rfl hne
      | cons d text => rfl

/-- No match of the pattern takes the character after others, where the test tells this of the
expressions. -/
def breaksAt (c : Char) (test : Regex → Bool) : Pattern → Bool
  | literal lit => !lit.tail.contains c
  | oneOf alternatives => alternatives.all fun alternative => !alternative.tail.contains c
  | keywords _ => !Word.isContinue c
  | expression e _ =>
    !Text.wordChars.contains c && !Word.isContinue c && e.regex?.any test
  | anyChar => true

theorem stopsAt_of_breaksAt {p : Pattern} {c : Char} {test : Regex → Bool}
    (h : p.breaksAt c test = true) {text tail : List Char}
    (htest : ∀ r : Regex, test r = true → r.StopsAt text (c :: tail)) : p.StopsAt text c tail := by
  cases p with
  | literal _ | keywords _ => simpa [breaksAt, StopsAt] using h
  | oneOf alternatives => simpa [breaksAt, StopsAt] using h
  | expression e bounded =>
      simp only [breaksAt, Bool.and_eq_true, Bool.not_eq_true', Option.any_eq_true] at h
      obtain ⟨⟨hword, hcont⟩, r, hr, hpasses⟩ := h
      exact ⟨hword, hcont, r, hr, htest r hpasses⟩
  | anyChar => trivial

/-- No match of the pattern ends in what comes after a text, once it has begun before. -/
def endsBefore (c : Char) (tail : List Char) (p : Pattern) : Bool :=
  p.breaksAt c fun r => r.endsBefore (c :: tail)

/-- No match of the pattern takes the character after others. -/
def avoids (c : Char) (p : Pattern) : Bool :=
  p.breaksAt c fun r => r.avoids c

theorem stopsAt_of_endsBefore {p : Pattern} {c : Char} {tail : List Char}
    (h : p.endsBefore c tail = true) (text : List Char) : p.StopsAt text c tail :=
  stopsAt_of_breaksAt h fun _ hr => Regex.stopsAt_of_endsBefore hr text

theorem stopsAt_of_avoids {p : Pattern} {c : Char} (h : p.avoids c = true)
    (text tail : List Char) : p.StopsAt text c tail :=
  stopsAt_of_breaksAt h fun _ hr => Regex.stopsAt_of_avoids hr text tail

end Pattern
end LiquidsoapHighlight
