import LiquidsoapHighlight.Proofs.Regex.Bounds

/-!
One or more characters of a class: the match is the longest run of such characters.
-/

namespace LiquidsoapHighlight

namespace Text
variable {p : Char → Bool}

theorem takeWhile_append_of_stop {run rest : List Char} (h : ∀ c ∈ run, p c = true)
    (hstop : rest.head?.any p = false) : (run ++ rest).takeWhile p = run := by
  rw [List.takeWhile_append_of_pos h]
  cases rest with
  | nil => rw [List.takeWhile_nil, List.append_nil]
  | cons c rest =>
      have hc : ¬ p c = true := Bool.eq_false_iff.mp hstop
      rw [List.takeWhile_cons_of_neg hc, List.append_nil]

/-- What comes after the longest run of characters does not go on with it. -/
theorem stops_after_takeWhile (p : Char → Bool) (text : List Char) :
    (text.drop (text.takeWhile p).length).head?.any p = false := by
  induction text with
  | nil => rfl
  | cons c text ih =>
      cases hc : p c with
      | true =>
          rw [List.takeWhile_cons_of_pos hc, List.length_cons, List.drop_succ_cons]
          exact ih
      | false =>
          rw [List.takeWhile_cons_of_neg (Bool.eq_false_iff.mp hc)]
          exact hc

end Text

namespace Regex

theorem follow_nil (before : Option Char) (count : Nat) (best : Option Nat) (text : List Char) :
    follow [] before count best text = best := by
  cases text <;> rfl

/-- After the first character, each further one of the class is taken as well. -/
theorem follow_again_oneOf (a : Address) (s : CharClass) (before : Option Char) (count : Nat)
    (best : Option Nat) (text : List Char) :
    follow [[.again a (oneOf s)]] before count best text =
      some (count + (text.takeWhile s.contains).length) := by
  induction text generalizing before count best with
  | nil => rfl
  | cons c rest ih =>
      have hfrontier : ∀ atBoundary, frontier atBoundary [[.again a (oneOf s)]] =
          ⟨[a], [(s, [.again a (oneOf s)])], true⟩ := fun _ => rfl
      simp only [follow, hfrontier, Frontier.advance]
      cases hc : s.contains c with
      | true =>
          simp only [List.isEmpty_cons, Bool.false_eq_true, if_false, List.reverse_singleton,
            List.filterMap_cons, hc, if_true, List.filterMap_nil, ih, List.takeWhile_cons,
            List.length_cons]
          congr 1
          omega
      | false => simp [hc, follow_nil]

theorem follow_star_oneOf (a : Address) (s : CharClass) (before : Option Char) (count : Nat)
    (best : Option Nat) (text : List Char) :
    follow [[.start a (star (oneOf s))]] before count best text =
      some (count + (text.takeWhile s.contains).length) := by
  cases text with
  | nil => rfl
  | cons c rest =>
      have hfrontier : ∀ atBoundary, frontier atBoundary [[.start a (star (oneOf s))]] =
          ⟨[true :: a], [(s, [.again a (oneOf s)])], true⟩ := fun _ => rfl
      simp only [follow, hfrontier, Frontier.advance]
      cases hc : s.contains c with
      | true =>
          simp [hc, follow_again_oneOf]
          omega
      | false => simp [hc, follow_nil]

/-- A character of one class and then as many as possible of another. -/
theorem matchCount?_seq_star_oneOf {s : CharClass} (t : CharClass) {c : Char}
    (h : s.contains c = true) (rest : List Char) :
    (seq (oneOf s) (star (oneOf t))).matchCount? (c :: rest) =
      some ((rest.takeWhile t.contains).length + 1) := by
  have hfrontier : ∀ atBoundary,
      frontier atBoundary [[.start [] (seq (oneOf s) (star (oneOf t)))]] =
        ⟨[], [(s, [.start [true] (star (oneOf t))])], false⟩ := fun _ => rfl
  simp [matchCount?, matchCountAfter?, follow, hfrontier, Frontier.advance, h, follow_star_oneOf,
    Nat.add_comm]

theorem matchCount?_plus_oneOf (s : CharClass) (text : List Char) :
    (plus (oneOf s)).matchCount? text =
      if text.takeWhile s.contains = [] then none
      else some (text.takeWhile s.contains).length := by
  cases text with
  | nil => rfl
  | cons c rest =>
      have hfrontier : ∀ atBoundary, frontier atBoundary [[.start [] (plus (oneOf s))]] =
          ⟨[], [(s, [.again [] (oneOf s)])], false⟩ := fun _ => rfl
      simp only [matchCount?, matchCountAfter?, follow, hfrontier, Frontier.advance]
      cases hc : s.contains c with
      | true => simp [hc, follow_again_oneOf, Nat.add_comm]
      | false => simp [hc, follow_nil]

end Regex

/-- An expression for one or more characters of a class takes the longest run of them. -/
theorem Pattern.matchCount?_run {w : WrittenRegex} {s : CharClass}
    (h : w.regex = .plus (.oneOf s)) (text : List Char) :
    (Pattern.expression w false).matchCount? text =
      if text.takeWhile s.contains = [] then none
      else some (text.takeWhile s.contains).length := by
  have hcount := w.matchCount?_toExpression text
  rw [h, Regex.matchCount?_plus_oneOf] at hcount
  by_cases hempty : text.takeWhile s.contains = []
  · simp [matchCount?, candidate?, hcount, hempty]
  · have hpos := List.length_pos_iff.mpr hempty
    simp [matchCount?, candidate?, hcount, hempty, hpos]

theorem Pattern.take_of_run {w : WrittenRegex} {s : CharClass}
    (h : w.regex = .plus (.oneOf s)) {text : List Char} {count : Nat}
    (hcount : (Pattern.expression w false).matchCount? text = some count) :
    text.take count = text.takeWhile s.contains := by
  rw [matchCount?_run h] at hcount
  split at hcount
  · cases hcount
  · obtain rfl := Option.some.inj hcount
    exact (List.prefix_iff_eq_take.mp (List.takeWhile_prefix s.contains)).symm

end LiquidsoapHighlight
