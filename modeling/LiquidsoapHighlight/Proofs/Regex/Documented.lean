import LiquidsoapHighlight.Proofs.Regex.MinLength
import LiquidsoapHighlight.Proofs.Regex.Reading

/-!
What a library for regular expressions says of itself, as far as patterns rely on it. The library
that is given here keeps to it.
-/

namespace LiquidsoapHighlight

/-- What the sources of a library mean, and what it promises about them. -/
structure RegexLibrary.Documented (library : RegexLibrary) where
  /-- The text is one that the parsed source describes. -/
  Matches : library.Parsed → List Char → Prop
  /-- Some class in the parsed source excludes all characters. -/
  HasEmptyClass : library.Parsed → Prop
  /-- A group means what its source means by itself. -/
  matches_of_anchored : ∀ {source parsed matcher text n}, library.parse? source = some parsed →
    library.compile? (Regex.anchored source) = some matcher →
      matcher.matchCount? text = some n → Matches parsed (text.take n)
  /-- No text that is described is shorter than the minimum length. -/
  minLength_le : ∀ {parsed text m}, Matches parsed text → library.minLength? parsed = some m →
    m ≤ Text.byteLength text
  /-- Only where a class has no characters there may be no minimum length. -/
  hasEmptyClass : ∀ {parsed}, library.minLength? parsed = none → HasEmptyClass parsed

namespace Regex

theorem words_sequence_cons (r : Regex) (rest : List Regex) :
    (sequence (r :: rest)).words = r.words * (sequence rest).words := by
  cases rest with
  | nil => exact (mul_one r.words).symm
  | cons s rest => rfl

theorem words_sequence_append (rs ss : List Regex) :
    (sequence (rs ++ ss)).words = (sequence rs).words * (sequence ss).words := by
  induction rs with
  | nil => exact (one_mul (sequence ss).words).symm
  | cons r rs ih => rw [List.cons_append, words_sequence_cons, ih, words_sequence_cons, mul_assoc]

/-- Splicing a sequence into the one around it does not change what is described. -/
theorem words_sequence_factors (r : Regex) : (sequence r.factors).words = r.words := by
  induction r with
  | seq r s ihr ihs => rw [factors, words_sequence_append, ihr, ihs, words]
  | _ => rfl

/-- A source that can be parsed by itself is what is matched inside of the group around it. -/
theorem compile?_anchored {source : List Char} {r : Regex} (h : read? source = some r) :
    compile? (anchored source) = some (.regex (concatenation [r])) := by
  rw [compile?, readAnchored?_of_read? h]
  rfl

theorem take_mem_words_of_anchored {source : List Char} {r : Regex} {matcher : Matcher}
    {text : List Char} {n : Nat} (hr : read? source = some r)
    (hmatcher : compile? (anchored source) = some matcher)
    (hn : matcher.matchCount? text = some n) : text.take n ∈ r.words := by
  obtain rfl := Option.some.inj ((compile?_anchored hr).symm.trans hmatcher)
  have hword := take_mem_words hn
  rwa [concatenation, List.flatMap_singleton, words_sequence_factors] at hword

theorem exists_empty_of_minLength? {r : Regex} (h : r.minLength? = none) :
    ∃ s ∈ r.chars, ∀ c, s.contains c = false := by
  obtain ⟨s, hs, hnone⟩ := minLength?_eq_none_iff.mp h
  exact ⟨s, hs, CharClass.not_contains_of_minLength? hnone⟩

def documented : library.Documented where
  Matches r w := w ∈ words r
  HasEmptyClass r := ∃ s ∈ chars r, ∀ c, s.contains c = false
  matches_of_anchored := take_mem_words_of_anchored
  minLength_le := fun hword hm => minLength_le_byteLength hword _ hm
  hasEmptyClass := exists_empty_of_minLength?

end Regex
end LiquidsoapHighlight
