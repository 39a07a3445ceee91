import LiquidsoapHighlight.Proofs.Grammar.Measured
import LiquidsoapHighlight.Proofs.Regex.Longest

/-!
Lists of alternatives, of which the first that starts a text is taken. Checking a rule lets pass the
lists in which each alternative is the first one for some text; in these the first is the longest as
well, however the list is ordered.
-/

namespace LiquidsoapHighlight

namespace Pattern
variable {alternatives : List (List Char)} {text : List Char}

/-- The position of the alternative that is taken of a text. -/
def picked? (alternatives : List (List Char)) (text : List Char) : Option Nat :=
  alternatives.findIdx? fun alternative => alternative.isPrefixOf text

theorem picked?_eq_some {i : Nat} : picked? alternatives text = some i ↔
    ∃ h : i < alternatives.length, alternatives[i] <+: text ∧
      ∀ (j : Nat) (hj : j < i), ¬ alternatives[j] <+: text := by
  simp only [picked?, List.findIdx?_eq_some_iff_getElem, List.isPrefixOf_iff_prefix]

/-- What an alternative takes is never nothing, so none that is found is passed over. -/
theorem matchLength?_oneOf (hne : ∀ a ∈ alternatives, a ≠ []) :
    (oneOf alternatives).matchLength? text =
      ((picked? alternatives text).bind (alternatives[·]?)).map Text.byteLength := by
  rw [picked?, ← List.find?_eq_bind_findIdx?_getElem?, matchLength?, matchCount?, candidate?]
  cases found : alternatives.find? fun alternative => alternative.isPrefixOf text with
  | none => rfl
  | some alternative =>
      have hpos := List.length_pos_iff.mpr (hne _ (List.mem_of_find?_eq_some found))
      have hfound := List.find?_some found
      have hstarts := List.isPrefixOf_iff_prefix.mp hfound
      simp only [Option.map_some, Option.filter_some, decide_eq_true hpos, if_true]
      rw [← List.prefix_iff_eq_take.mp hstarts]

/-- No alternative comes after one that it starts with. -/
def Unshadowed (alternatives : List (List Char)) : Prop :=
  alternatives.Pairwise fun earlier later => ¬ earlier <+: later

/-- This says that each of them is taken of some text: of the text that it is itself. -/
theorem unshadowed_iff :
    Unshadowed alternatives ↔
      ∀ i < alternatives.length, ∃ text, picked? alternatives text = some i := by
  rw [Unshadowed, List.pairwise_iff_getElem]
  constructor
  · intro hpairs i hi
    exact ⟨alternatives[i], picked?_eq_some.mpr
      ⟨hi, List.prefix_rfl, fun j hj => hpairs j i (Nat.lt_trans hj hi) hi hj⟩⟩
  · intro hpicked j i hj hi hlt hshadow
    obtain ⟨text, htext⟩ := hpicked i hi
    obtain ⟨_, hstarts, hfirst⟩ := picked?_eq_some.mp htext
    exact hfirst j hlt (hshadow.trans hstarts)

/-- Two alternatives that start a text start one the other, and the shorter one comes later. -/
theorem Unshadowed.longestWord (h : Unshadowed alternatives) {i : Nat}
    (hi : i < alternatives.length) (hpicked : picked? alternatives text = some i) :
    LongestWord {w | w ∈ alternatives} text alternatives[i] := by
  obtain ⟨_, hstarts, hfirst⟩ := picked?_eq_some.mp hpicked
  refine ⟨List.getElem_mem hi, hstarts, fun other hmem hother => ?_⟩
  obtain ⟨j, hj, rfl⟩ := List.getElem_of_mem hmem
  obtain hlt | rfl | hlt := Nat.lt_trichotomy j i
  · exact absurd hother (hfirst j hlt)
  · exact Nat.le_refl _
  · have hshadow := List.pairwise_iff_getElem.mp h i j hi hj hlt
    exact ((List.prefix_or_prefix_of_prefix hstarts hother).resolve_left hshadow).length_le

theorem exists_picked? {alternative : List Char} (hmem : alternative ∈ alternatives)
    (hstarts : alternative <+: text) :
    ∃ i, ∃ _ : i < alternatives.length, picked? alternatives text = some i := by
  cases hpicked : picked? alternatives text with
  | some i => exact ⟨i, (picked?_eq_some.mp hpicked).1, rfl⟩
  | none =>
      have hnone := List.findIdx?_eq_none_iff.mp hpicked alternative hmem
      exact absurd (List.isPrefixOf_iff_prefix.mpr hstarts) (Bool.eq_false_iff.mp hnone)

/-- Of a list without shadows, the longest alternative is taken that there is. -/
theorem Unshadowed.matchLength?_eq_some (h : Unshadowed alternatives)
    (hne : ∀ a ∈ alternatives, a ≠ []) {length : Nat} :
    (oneOf alternatives).matchLength? text = some length ↔
      ∃ w, LongestWord {w | w ∈ alternatives} text w ∧ Text.byteLength w = length := by
  rw [matchLength?_oneOf hne]
  constructor
  · intro hlength
    obtain ⟨w, hw, rfl⟩ := Option.map_eq_some_iff.mp hlength
    obtain ⟨i, hpicked, hget⟩ := Option.bind_eq_some_iff.mp hw
    obtain ⟨hi, rfl⟩ := List.getElem?_eq_some_iff.mp hget
    exact ⟨_, h.longestWord hi hpicked, rfl⟩
  · rintro ⟨w, hw, rfl⟩
    obtain ⟨i, hi, hpicked⟩ := exists_picked? hw.mem hw.starts
    rw [hpicked, Option.bind_some, List.getElem?_eq_getElem hi, Option.map_some,
      (h.longestWord hi hpicked).unique hw]

theorem matchLength?_eq_none (hne : ∀ a ∈ alternatives, a ≠ []) :
    (oneOf alternatives).matchLength? text = none ↔ ∀ a ∈ alternatives, ¬ a <+: text := by
  rw [matchLength?_oneOf hne, picked?, ← List.find?_eq_bind_findIdx?_getElem?,
    Option.map_eq_none_iff, List.find?_eq_none]
  simp only [List.isPrefixOf_iff_prefix]

/-- Lists with the same alternatives and without shadows take the same of every text. -/
theorem Unshadowed.matchLength?_congr {others : List (List Char)} (h : Unshadowed alternatives)
    (hothers : Unshadowed others) (hne : ∀ a ∈ alternatives, a ≠ [])
    (hsame : ∀ a, a ∈ others ↔ a ∈ alternatives) (text : List Char) :
    (oneOf others).matchLength? text = (oneOf alternatives).matchLength? text := by
  have hne' : ∀ a ∈ others, a ≠ [] := fun a ha => hne a ((hsame a).mp ha)
  have hwords : {w | w ∈ others} = {w | w ∈ alternatives} := Set.ext hsame
  ext length
  rw [hothers.matchLength?_eq_some hne', h.matchLength?_eq_some hne, hwords]

end Pattern

namespace Rule
variable {rule : Rule} {alternatives : List (List Char)}

theorem checkAlternatives_of_unshadowed {mode : Mode} (h : Pattern.Unshadowed alternatives) :
    rule.checkAlternatives mode [] alternatives = .ok () := by
  cases hcheck : rule.checkAlternatives mode [] alternatives with
  | ok _ => rfl
  | error e =>
      obtain ⟨front, shadow, between, alternative, back, rfl, hshadow, _⟩ :=
        checkAlternatives_eq_error hcheck
      have hlater := (List.pairwise_cons.mp (List.pairwise_append.mp h).2.1).1
      exact absurd hshadow (hlater alternative (by simp))

theorem checkLength_of_alternatives {mode : Mode} (hpattern : rule.pattern = .oneOf alternatives)
    (hsome : alternatives ≠ []) (hne : ∀ a ∈ alternatives, a ≠ []) :
    rule.checkLength mode = .ok () := by
  obtain ⟨alternative, hmem⟩ := List.exists_mem_of_ne_nil alternatives hsome
  obtain ⟨m, _, hmin⟩ := Pattern.exists_minLength?_le hmem
  obtain ⟨shortest, hshortest, rfl⟩ := List.mem_map.mp (List.min?_mem hmin)
  have hpos := Text.byteLength_pos (hne shortest hshortest)
  have hlength : rule.pattern.minLength? = some (Text.byteLength shortest) := by
    rw [hpattern]
    exact hmin
  rw [checkLength, hlength]
  split
  · next hzero => exact absurd (Option.some.inj hzero) (Nat.ne_of_gt hpos)
  · next hnone => cases hnone
  · rfl

theorem check_alternatives_iff (hpattern : rule.pattern = .oneOf alternatives)
    (hsome : alternatives ≠ []) (hne : ∀ a ∈ alternatives, a ≠ []) (mode : Mode) :
    rule.check mode = .ok () ↔ Pattern.Unshadowed alternatives := by
  constructor
  · intro hcheck
    exact (wellFormed_of_check hcheck).alternatives alternatives hpattern
  · intro h
    have hwords : rule.checkWords mode = .ok () := by
      rw [checkWords, hpattern]
      exact checkAlternatives_of_unshadowed h
    exact Check.bind_eq_ok.mpr ⟨(), checkLength_of_alternatives hpattern hsome hne, hwords⟩

/-- A rule passes its check if each of its alternatives can be taken. Then the longest one that
starts a text is taken, or none if none does, whatever their order is. -/
theorem checked_alternatives_match_longest (hpattern : rule.pattern = .oneOf alternatives)
    (hsome : alternatives ≠ []) (hne : ∀ a ∈ alternatives, a ≠ []) (mode : Mode) :
    (∀ text, rule.pattern.matchLength? text =
        ((Pattern.picked? alternatives text).bind (alternatives[·]?)).map Text.byteLength) ∧
      (rule.check mode = .ok () ↔
        ∀ i < alternatives.length, ∃ text, Pattern.picked? alternatives text = some i) ∧
      (rule.check mode = .ok () → ∀ text,
        (∀ length, rule.pattern.matchLength? text = some length ↔
          ∃ w, LongestWord {w | w ∈ alternatives} text w ∧ Text.byteLength w = length) ∧
        (rule.pattern.matchLength? text = none ↔ ∀ a ∈ alternatives, ¬ a <+: text) ∧
        ∀ (other : Rule) (reordered : List (List Char)) (otherMode : Mode),
          other.pattern = .oneOf reordered → reordered.Perm alternatives →
          other.check otherMode = .ok () →
            other.pattern.matchLength? text = rule.pattern.matchLength? text) := by
  have hcheck := check_alternatives_iff hpattern hsome hne mode
  rw [hcheck, hpattern]
  refine ⟨fun text => Pattern.matchLength?_oneOf hne, Pattern.unshadowed_iff, fun h text =>
    ⟨fun length => h.matchLength?_eq_some hne, Pattern.matchLength?_eq_none hne, ?_⟩⟩
  intro other reordered otherMode hother hperm hchecked
  have hunshadowed := (wellFormed_of_check hchecked).alternatives reordered hother
  rw [hother]
  exact h.matchLength?_congr hunshadowed hne (fun _ => hperm.mem_iff) text

/-- Two orders of three operators, both of them with the longer ones before what they start with. -/
theorem comparisons_match_alike :
    let first : Rule :=
      ⟨"comparison", .oneOf [">=".toList, ">".toList, "=".toList], .operator, .stay⟩
    let second : Rule :=
      ⟨"comparison", .oneOf ["=".toList, ">=".toList, ">".toList], .operator, .stay⟩
    first.check .topLevel = .ok () ∧ second.check .braces = .ok () ∧
      ∀ text, second.pattern.matchLength? text = first.pattern.matchLength? text := by
  intro first second
  have hfirst : first.check .topLevel = .ok () := by decide +kernel
  have hsecond : second.check .braces = .ok () := by decide +kernel
  have hpattern : first.pattern = .oneOf [">=".toList, ">".toList, "=".toList] := rfl
  have hlongest := (checked_alternatives_match_longest hpattern (by decide) (by decide)
    .topLevel).2.2 hfirst
  exact ⟨hfirst, hsecond, fun text =>
    (hlongest text).2.2 second _ .braces rfl (by decide) hsecond⟩

end Rule
end LiquidsoapHighlight
