import Mathlib.Data.Nat.Find
import LiquidsoapHighlight.Proofs.Regex.Outline
import LiquidsoapHighlight.Regex.MinLength

/-!
The minimum length of an expression. It is a lower bound for the bytes of each word, and there is
none only for an expression that has a class without characters.
-/

namespace LiquidsoapHighlight

theorem exists_min?_le {ns : List Nat} {n : Nat} (h : n ∈ ns) : ∃ m, ns.min? = some m ∧ m ≤ n :=
  ⟨_, (Option.some_get (List.isSome_min?_of_mem h)).symm, List.min?_get_le_of_mem h⟩

theorem utf8Size_le {c d : Char} (h : c.toNat ≤ d.toNat) : c.utf8Size ≤ d.utf8Size := by
  have hc : c.toNat = c.val.toNat := rfl
  have hd : d.toNat = d.val.toNat := rfl
  simp only [Char.utf8Size, UInt32.le_iff_toNat_le]
  split_ifs <;> omega

theorem toNat_ofNat_le (code : Nat) : (Char.ofNat code).toNat ≤ code := by
  by_cases h : code.isValidChar
  · have hcode : Char.ofNat code = Char.ofNatAux code h := dif_pos h
    rw [hcode]
    exact Nat.le_refl code
  · have hzero : Char.ofNat code = '\x00' := dif_neg h
    rw [hzero]
    exact Nat.zero_le code

namespace CharClass

/-- Before each character that is outside a set there is a code point where the outside begins. -/
theorem exists_outsideStart {s : CodeRanges} {c : Char} (h : s.contains c = false) :
    ∃ code ∈ outsideStarts s, code.isValidChar ∧ s.containsCode code = false ∧
      code ≤ c.toNat := by
  have hsome : ∃ code : Nat, code.isValidChar ∧ s.containsCode code = false := ⟨_, c.valid, h⟩
  have hle := Nat.find_min' hsome ⟨c.valid, h⟩
  have hmin := fun code => @Nat.find_min _ _ hsome code
  obtain ⟨hvalid, hout⟩ := Nat.find_spec hsome
  refine ⟨Nat.find hsome, ?_, hvalid, hout, hle⟩
  generalize Nat.find hsome = code at hmin hvalid hout
  simp only [outsideStarts, List.mem_cons, List.mem_map]
  by_cases hfirst : code = 0 ∨ code = 0xe000
  · exact hfirst.imp_right .inl
  · -- The code point before is that of a character, which is in a range that ends there.
    have hbefore : (code - 1).isValidChar := by
      simp only [Nat.isValidChar] at hvalid ⊢
      omega
    have hin : s.containsCode (code - 1) = true := by
      rw [← Bool.not_eq_false]
      exact fun hnot => hmin (code - 1) (by omega) ⟨hbefore, hnot⟩
    obtain ⟨range, hrange, hbounds⟩ := List.any_eq_true.mp hin
    have houtside := List.any_eq_false.mp hout range hrange
    simp only [Bool.and_eq_true, decide_eq_true_eq] at hbounds houtside
    exact .inr (.inr ⟨range, hrange, by omega⟩)

theorem least_le {s : CharClass} {c : Char} (h : s.contains c = true) :
    ∃ code, s.least? = some code ∧ code ≤ c.toNat := by
  obtain ⟨negated, listed⟩ := s
  cases negated with
  | false =>
      have hin : listed.contains c = true := (Bool.bne_false _).symm.trans h
      obtain ⟨range, hrange, hlow, _⟩ := CodeRanges.contains_iff.mp hin
      obtain ⟨code, hcode, hle⟩ := exists_min?_le (List.mem_map_of_mem (f := Prod.fst) hrange)
      exact ⟨code, hcode, hle.trans hlow⟩
  | true =>
      have hout : listed.contains c = false := by simpa [contains] using h
      obtain ⟨start, hstart, hvalid, hcode, hle⟩ := exists_outsideStart hout
      have hmem : start ∈ (outsideStarts listed).filter fun code =>
          decide code.isValidChar && !listed.containsCode code :=
        List.mem_filter.mpr ⟨hstart, by simp [hvalid, hcode]⟩
      obtain ⟨code, hleast, hcodele⟩ := exists_min?_le hmem
      exact ⟨code, hleast, hcodele.trans hle⟩

theorem minLength_le {s : CharClass} {c : Char} (h : s.contains c = true) :
    ∃ m, s.minLength? = some m ∧ m ≤ c.utf8Size := by
  obtain ⟨code, hcode, hle⟩ := least_le h
  exact ⟨_, congrArg (Option.map _) hcode, utf8Size_le ((toNat_ofNat_le code).trans hle)⟩

/-- A class without a least character has no characters. -/
theorem not_contains_of_minLength? {s : CharClass} (h : s.minLength? = none) (c : Char) :
    s.contains c = false := by
  rw [← Bool.not_eq_true]
  intro hc
  obtain ⟨m, hm, _⟩ := minLength_le hc
  rw [h] at hm
  cases hm

end CharClass

namespace Regex

theorem minLength_le_byteLength {r : Regex} {w : List Char} (h : w ∈ r.words) :
    ∀ m, r.minLength? = some m → m ≤ Text.byteLength w := by
  induction h using words_induction with
  | empty | boundary =>
      intro m hm
      exact Nat.le_of_eq (Option.some.inj hm).symm
  | skip r | done r =>
      intro m hm
      obtain ⟨_, _, rfl⟩ := Option.map_eq_some_iff.mp hm
      exact Nat.zero_le _
  | oneOf s c hc =>
      intro m hm
      obtain ⟨n, hn, hle⟩ := CharClass.minLength_le hc
      obtain rfl := Option.some.inj (hn.symm.trans hm)
      exact hle
  | seq r s u v _ _ ihu ihv =>
      intro m hm
      simp only [minLength?, Option.bind_eq_bind, Option.bind_eq_some_iff] at hm
      obtain ⟨a, ha, b, hb, hab⟩ := hm
      obtain rfl := Option.some.inj hab
      rw [Text.byteLength_append]
      exact Nat.add_le_add (ihu a ha) (ihv b hb)
  | left r s w _ ih =>
      intro m hm
      simp only [minLength?, Option.bind_eq_bind, Option.bind_eq_some_iff] at hm
      obtain ⟨a, ha, b, _, hab⟩ := hm
      obtain rfl := Option.some.inj hab
      exact (Nat.min_le_left a b).trans (ih a ha)
  | right r s w _ ih =>
      intro m hm
      simp only [minLength?, Option.bind_eq_bind, Option.bind_eq_some_iff] at hm
      obtain ⟨a, _, b, hb, hab⟩ := hm
      obtain rfl := Option.some.inj hab
      exact (Nat.min_le_right a b).trans (ih b hb)
  | once r w _ _ =>
      intro m hm
      obtain ⟨_, _, rfl⟩ := Option.map_eq_some_iff.mp hm
      exact Nat.zero_le _
  | again r u v _ _ _ ihv =>
      intro m hm
      rw [Text.byteLength_append]
      exact (ihv m hm).trans (Nat.le_add_left _ _)
  | first r u v _ _ ihu _ =>
      intro m hm
      rw [Text.byteLength_append]
      exact (ihu m hm).trans (Nat.le_add_right _ _)
  | group r w _ ih => exact ih

/-- There is no minimum length only where there is none for a class. -/
theorem minLength?_eq_none_iff {r : Regex} :
    r.minLength? = none ↔ ∃ s ∈ r.chars, s.minLength? = none := by
  induction r with
  | empty | boundary => simp [minLength?, chars]
  | oneOf s => simp [minLength?, chars]
  | seq r s ihr ihs | alt r s ihr ihs =>
      simp only [chars, List.mem_append, or_and_right, exists_or, ← ihr, ← ihs]
      cases hr : r.minLength? <;> cases hs : s.minLength? <;> simp [minLength?, hr, hs]
  | opt r ih | star r ih => simpa [minLength?, chars] using ih
  | plus r ih | capture r ih => exact ih

end Regex
end LiquidsoapHighlight
