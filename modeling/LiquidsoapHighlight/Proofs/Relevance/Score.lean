import Mathlib.Algebra.Order.BigOperators.Group.List
import Mathlib.Algebra.Order.Group.Nat
import Mathlib.Data.List.Perm.Subperm
import LiquidsoapHighlight.Proofs.Relevance.Totals

/-!
The score from the exact sums of the weights. The sums are kept with what room there is, which makes
no difference to the score but for the greatest number that it can be; so the order of the tokens
does not matter to it, and more tokens never lower it.
-/

namespace LiquidsoapHighlight
namespace Relevance

/-- The number itself, or the greatest one that there is room for. -/
def clamp (n : Nat) : Nat := min n (2 ^ 32 - 1)

theorem clamp_mono {m n : Nat} (h : m ≤ n) : clamp m ≤ clamp n :=
  min_le_min_right _ h

theorem clamp_toNat (weight : UInt32) : clamp weight.toNat = weight.toNat :=
  Nat.min_eq_left (Nat.le_pred_of_lt weight.toNat_lt)

/-- Nothing is lost by clamping the parts of a sum before it is clamped. -/
theorem clamp_add (m n : Nat) : clamp (clamp m + clamp n) = clamp (m + n) := by
  simp only [clamp]
  omega

theorem clamp_eq_zero {n : Nat} : clamp n = 0 ↔ n = 0 := by
  simp only [clamp]
  omega

theorem toNat_addClamped (a b : UInt32) :
    (addClamped a b).toNat = clamp (a.toNat + b.toNat) := by
  have hsize : UInt32.size = 2 ^ 32 := rfl
  unfold addClamped clamp
  split
  · next h =>
      rw [UInt32.toNat_add, Nat.mod_eq_of_lt (hsize ▸ h)]
      omega
  · next h =>
      rw [Nat.min_eq_right (by omega)]
      rfl

/-- A weight is added to a clamped sum as to the sum itself. -/
theorem toNat_addClamped_of_clamp {sum : UInt32} {n : Nat} (h : sum.toNat = clamp n)
    (weight : UInt32) : (addClamped sum weight).toNat = clamp (n + weight.toNat) := by
  rw [toNat_addClamped, h, ← clamp_toNat weight, clamp_add, clamp_toNat]

/-- The tally of tokens whose weights have these sums. -/
structure Tally.Holds (t : Tally) (distinctive supporting : Nat) : Prop where
  distinctive_eq : t.distinctive.toNat = clamp distinctive
  supporting_eq : t.supporting.toNat = clamp supporting

namespace Tally.Holds
variable {t : Tally} {m n : Nat}

theorem add (h : t.Holds m n) (e : Option Evidence) :
    (t.add e).Holds (m + e.elim 0 Evidence.distinctiveWeight)
      (n + e.elim 0 Evidence.supportingWeight) := by
  cases e with
  | none => exact h
  | some e =>
      cases e with
      | distinctive weight =>
          exact ⟨toNat_addClamped_of_clamp h.distinctive_eq weight, h.supporting_eq⟩
      | supporting weight =>
          exact ⟨h.distinctive_eq, toNat_addClamped_of_clamp h.supporting_eq weight⟩

theorem foldl (h : t.Holds m n) (tokens : List Token) :
    (tokens.foldl (fun t token => t.add (evidence? token)) t).Holds
      (m + total Evidence.distinctiveWeight tokens)
      (n + total Evidence.supportingWeight tokens) := by
  induction tokens generalizing t m n with
  | nil => exact h
  | cons token tokens ih =>
      rw [List.foldl_cons, total_cons, total_cons, ← Nat.add_assoc, ← Nat.add_assoc]
      exact ih (h.add _)

theorem score (h : t.Holds m n) : t.score.toNat = if m = 0 then 0 else clamp (m + n) := by
  have hzero : t.distinctive = 0 ↔ m = 0 := by
    rw [← clamp_eq_zero, ← h.distinctive_eq]
    exact UInt32.toNat_inj.symm
  unfold Tally.score
  split_ifs with hd hm hm
  · rfl
  · exact absurd (hzero.mp hd) hm
  · exact absurd (hzero.mpr hm) hd
  · rw [toNat_addClamped, h.distinctive_eq, h.supporting_eq, clamp_add]

end Tally.Holds

theorem tally_holds (tokens : List Token) :
    (tally tokens).Holds (total Evidence.distinctiveWeight tokens)
      (total Evidence.supportingWeight tokens) := by
  have hempty : Tally.empty.Holds 0 0 := ⟨rfl, rfl⟩
  have htally := hempty.foldl tokens
  rwa [Nat.zero_add, Nat.zero_add] at htally

theorem toNat_score (tokens : List Token) : (score tokens).toNat =
    if total Evidence.distinctiveWeight tokens = 0 then 0
    else clamp (total Evidence.distinctiveWeight tokens +
      total Evidence.supportingWeight tokens) :=
  (tally_holds tokens).score

section
variable {tokens more : List Token}

theorem total_perm (weight : Evidence → Nat) (h : tokens.Perm more) :
    total weight tokens = total weight more :=
  (h.map _).sum_eq

theorem total_le_of_subperm (weight : Evidence → Nat) (h : tokens.Subperm more) :
    total weight tokens ≤ total weight more := by
  obtain ⟨kept, hperm, hsublist⟩ := h
  rw [← total_perm weight hperm]
  exact (hsublist.map _).sum_le_sum fun _ _ => Nat.zero_le _

theorem score_perm (h : tokens.Perm more) : score tokens = score more := by
  rw [← UInt32.toNat_inj, toNat_score, toNat_score, total_perm _ h, total_perm _ h]

/-- What is added may be the first distinctive token, and then all others count as well. -/
theorem score_le_of_subperm (h : tokens.Subperm more) : score tokens ≤ score more := by
  have hdistinctive := total_le_of_subperm Evidence.distinctiveWeight h
  have hsupporting := total_le_of_subperm Evidence.supportingWeight h
  rw [UInt32.le_iff_toNat_le, toNat_score, toNat_score]
  split_ifs with hzero hmore hmore
  · exact Nat.le_refl 0
  · exact Nat.zero_le _
  · rw [hmore] at hdistinctive
    exact absurd (Nat.le_zero.mp hdistinctive) hzero
  · exact clamp_mono (Nat.add_le_add hdistinctive hsupporting)

end

/-- The score is the clamped sum of all weights, if one of them is distinctive. -/
theorem score_eq_sum (tokens : List Token) :
    (score tokens).toNat =
      (if total Evidence.distinctiveWeight tokens = 0 then 0
      else min (total Evidence.distinctiveWeight tokens + total Evidence.supportingWeight tokens)
        (2 ^ 32 - 1)) ∧
    (∀ other, tokens.Perm other → score tokens = score other) ∧
    ∀ more, tokens.Subperm more → score tokens ≤ score more :=
  ⟨toNat_score tokens, fun _ => score_perm, fun _ => score_le_of_subperm⟩

theorem score_with_duration :
    score [⟨.keyword, 0, "def".toList⟩] ≤
        score [⟨.duration, 4, "1h".toList⟩, ⟨.keyword, 0, "def".toList⟩] ∧
      score [⟨.duration, 4, "1h".toList⟩, ⟨.keyword, 0, "def".toList⟩] =
        score [⟨.keyword, 0, "def".toList⟩, ⟨.duration, 4, "1h".toList⟩] ∧
      (score [⟨.keyword, 0, "def".toList⟩, ⟨.duration, 4, "1h".toList⟩]).toNat = 3 := by
  refine ⟨(score_eq_sum _).2.2 _ (List.sublist_cons_self _ _).subperm,
    (score_eq_sum _).2.1 _ (List.Perm.swap _ _ _), ?_⟩
  rw [(score_eq_sum _).1]
  rfl

end Relevance
end LiquidsoapHighlight
