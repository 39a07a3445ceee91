import LiquidsoapHighlight.Pattern

/-!
A match never takes more characters than there are, so that its end is an offset of the text. This
holds for all patterns, whatever finds the matches of their expressions.
-/

namespace LiquidsoapHighlight
theorem Expression.matchCount?_le_length {e : Expression} {text : List Char} {n : Nat}
    (h : e.matchCount? text = some n) : n ≤ text.length :=
  Matcher.matchCount?_le_length h

/-- Where an expression is all there is to the matcher, it is what is matched. -/
theorem Expression.matchCount?_of_regex? {e : Expression} {r : Regex} (h : e.regex? = some r)
    (text : List Char) : e.matchCount? text = r.matchCount? text := by
  obtain ⟨source, _ | _, minLength⟩ := e
  · obtain rfl := Option.some.inj h
    rfl
  · cases h

theorem WrittenRegex.matchCount?_toExpression (w : WrittenRegex) (text : List Char) :
    w.toExpression.matchCount? text = w.regex.matchCount? text := rfl

theorem Word.isContinue_of_isStart {c : Char} (h : isStart c = true) : isContinue c = true := by
  simp only [isStart, isContinue, Char.isAlphanum, Bool.or_eq_true] at h ⊢
  exact h.imp_left .inl

theorem Word.run_prefix (text : List Char) : Word.run text <+: text := by
  cases text with
  | nil => exact List.prefix_refl _
  | cons c rest =>
      simp only [Word.run]
      split
      · exact (List.prefix_cons_inj c).mpr (List.takeWhile_prefix _)
      · exact List.nil_prefix

theorem Word.take_run (text : List Char) : text.take (run text).length = run text :=
  (List.prefix_iff_eq_take.mp (Word.run_prefix text)).symm

namespace Pattern

theorem candidate?_le_length {p : Pattern} {text : List Char} {n : Nat}
    (h : p.candidate? text = some n) : n ≤ text.length := by
  cases p with
  | literal lit =>
      simp only [candidate?] at h
      split at h
      · next hp =>
          obtain rfl := Option.some.inj h
          exact (List.isPrefixOf_iff_prefix.mp hp).length_le
      · exact absurd h (by simp)
  | oneOf alternatives =>
      obtain ⟨alternative, hf, rfl⟩ := Option.map_eq_some_iff.mp h
      have hp := List.find?_some hf
      exact (List.isPrefixOf_iff_prefix.mp hp).length_le
  | keywords words =>
      simp only [candidate?] at h
      split at h
      · obtain rfl := Option.some.inj h
        exact (Word.run_prefix text).length_le
      · exact absurd h (by simp)
  | expression e bounded =>
      exact Expression.matchCount?_le_length (Option.filter_eq_some_iff.mp h).1
  | anyChar =>
      cases text with
      | nil => exact absurd h (by simp [candidate?])
      | cons c rest =>
          obtain rfl : 1 = n := by simpa [candidate?] using h
          exact Nat.le_add_left 1 rest.length

theorem matchCount?_pos {p : Pattern} {text : List Char} {n : Nat}
    (h : p.matchCount? text = some n) : 0 < n := by
  simpa using (Option.filter_eq_some_iff.mp h).2

theorem matchCount?_le_length {p : Pattern} {text : List Char} {n : Nat}
    (h : p.matchCount? text = some n) : n ≤ text.length :=
  candidate?_le_length (Option.filter_eq_some_iff.mp h).1

end Pattern
end LiquidsoapHighlight
