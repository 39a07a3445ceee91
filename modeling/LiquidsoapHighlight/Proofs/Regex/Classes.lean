import Mathlib.Data.Char
import LiquidsoapHighlight.Regex.Basic

/-!
Which characters a class has, and classes that have none in common.
-/

namespace LiquidsoapHighlight

namespace CodeRanges

def disjoint (s t : CodeRanges) : Bool :=
  s.ranges.all fun a => t.ranges.all fun b => a.2 < b.1 || b.2 < a.1

/-- Each range of the second set lies in one of the first. -/
def covers (s t : CodeRanges) : Bool :=
  t.ranges.all fun b => s.ranges.any fun a => a.1 ≤ b.1 && b.2 ≤ a.2

theorem contains_iff {s : CodeRanges} {c : Char} :
    s.contains c = true ↔ ∃ range ∈ s.ranges, range.1 ≤ c.toNat ∧ c.toNat ≤ range.2 := by
  simp [contains, containsCode]

theorem not_contains_of_disjoint {s t : CodeRanges} (h : s.disjoint t = true) {c : Char}
    (hs : s.contains c = true) : t.contains c = false := by
  obtain ⟨a, ha, hlow, hhigh⟩ := contains_iff.mp hs
  rw [← Bool.not_eq_true, contains_iff]
  rintro ⟨b, hb, hlow', hhigh'⟩
  have hab := List.all_eq_true.mp (List.all_eq_true.mp h a ha) b hb
  simp only [Bool.or_eq_true, decide_eq_true_eq] at hab
  omega

theorem contains_of_covers {s t : CodeRanges} (h : s.covers t = true) {c : Char}
    (ht : t.contains c = true) : s.contains c = true := by
  obtain ⟨b, hb, hlow, hhigh⟩ := contains_iff.mp ht
  obtain ⟨a, ha, hab⟩ := List.any_eq_true.mp (List.all_eq_true.mp h b hb)
  simp only [Bool.and_eq_true, decide_eq_true_eq] at hab
  exact contains_iff.mpr ⟨a, ha, by omega, by omega⟩

/-- Whether a set has a character can be told from the ranges that begin before a limit above it. -/
theorem contains_filter_below {s : CodeRanges} {c : Char} {limit : Nat} (h : c.toNat < limit) :
    (⟨s.ranges.filter (·.1 < limit)⟩ : CodeRanges).contains c = s.contains c := by
  rw [Bool.eq_iff_iff, contains_iff, contains_iff]
  simp only [List.mem_filter, decide_eq_true_eq]
  constructor
  · rintro ⟨range, ⟨hrange, _⟩, hc⟩
    exact ⟨range, hrange, hc⟩
  · rintro ⟨range, hrange, hlow, hhigh⟩
    exact ⟨range, ⟨hrange, by omega⟩, hlow, hhigh⟩

end CodeRanges

namespace CharClass

def disjoint : CharClass → CharClass → Bool
  | ⟨false, s⟩, ⟨false, t⟩ => s.disjoint t
  | ⟨false, s⟩, ⟨true, t⟩ => t.covers s
  | ⟨true, s⟩, ⟨false, t⟩ => s.covers t
  | ⟨true, _⟩, ⟨true, _⟩ => false

theorem not_contains_of_disjoint {s t : CharClass} (h : s.disjoint t = true) {c : Char}
    (hs : s.contains c = true) : t.contains c = false := by
  obtain ⟨negated, listed⟩ := s
  obtain ⟨negated', listed'⟩ := t
  cases negated <;> cases negated' <;> simp only [contains, bne_iff_ne, ne_eq] at hs ⊢
  · simp only [Bool.not_eq_false] at hs
    simp [CodeRanges.not_contains_of_disjoint h hs]
  · simp only [Bool.not_eq_false] at hs
    simp [CodeRanges.contains_of_covers h hs]
  · simp only [Bool.not_eq_true] at hs
    cases hc : listed'.contains c with
    | false => rfl
    | true => rw [CodeRanges.contains_of_covers h hc] at hs; cases hs
  · cases h

theorem contains_ofRanges {ranges : List (Char × Char)} {c : Char} :
    (ofRanges ranges).contains c = true ↔ ∃ range ∈ ranges, range.1 ≤ c ∧ c ≤ range.2 := by
  simp [ofRanges, contains, CodeRanges.contains, CodeRanges.containsCode]
  rfl

theorem between_self {c d : Char} : d ≤ c ∧ c ≤ d ↔ c = d :=
  and_comm.trans le_antisymm_iff.symm

theorem contains_ofChars {cs : List Char} {c : Char} :
    (ofChars cs).contains c = true ↔ c ∈ cs := by
  rw [ofChars, contains_ofRanges]
  constructor
  · rintro ⟨range, hrange, hlow, hhigh⟩
    obtain ⟨d, hd, rfl⟩ := List.mem_map.mp hrange
    rwa [le_antisymm hhigh hlow]
  · intro hc
    exact ⟨(c, c), List.mem_map_of_mem hc, le_refl c, le_refl c⟩

theorem contains_singleton {c d : Char} :
    (⟨false, .singleton c⟩ : CharClass).contains d = true ↔ d = c := by
  simp only [contains, Bool.bne_false, CodeRanges.contains_iff, CodeRanges.singleton,
    List.mem_singleton, exists_eq_left, ← Nat.le_antisymm_iff, Char.toNat_inj]
  exact eq_comm

/-- A class of several that has the character. -/
def AnyContains (classes : List CharClass) (c : Char) : Prop :=
  ∃ s ∈ classes, s.contains c = true

theorem AnyContains.mono {classes more : List CharClass} {c : Char} (h : AnyContains classes c)
    (hm : classes ⊆ more) : AnyContains more c := by
  obtain ⟨s, hs, hc⟩ := h
  exact ⟨s, hm hs, hc⟩

def allDisjoint (some others : List CharClass) : Bool :=
  some.all fun s => others.all s.disjoint

theorem not_anyContains {some others : List CharClass} (h : allDisjoint some others = true)
    {c : Char} (hs : AnyContains some c) : ¬ AnyContains others c := by
  rintro ⟨t, ht, hc⟩
  obtain ⟨s, hs, hsc⟩ := hs
  have hst := List.all_eq_true.mp (List.all_eq_true.mp h s hs) t ht
  rw [not_contains_of_disjoint hst hsc] at hc
  cases hc

end CharClass

end LiquidsoapHighlight
