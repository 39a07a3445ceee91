import Mathlib.Algebra.GroupWithZero.Nat
import LiquidsoapHighlight.Proofs.Token.Seam
import LiquidsoapHighlight.Relevance

/-!
The exact sums of the weights of evidence, with as much room as they take. Where a token stands does
not matter to them, and plain text adds nothing.
-/

namespace LiquidsoapHighlight

namespace Evidence

def distinctiveWeight : Evidence → Nat
  | distinctive weight => weight.toNat
  | supporting _ => 0

def supportingWeight : Evidence → Nat
  | distinctive _ => 0
  | supporting weight => weight.toNat

end Evidence

namespace Relevance

/-- The sum of the weights of some sort over all tokens. -/
def total (weight : Evidence → Nat) (tokens : List Token) : Nat :=
  (tokens.map fun t => (evidence? t).elim 0 weight).sum

theorem evidence?_congr {t u : Token} (hkind : t.kind = u.kind) (htext : t.text = u.text) :
    evidence? t = evidence? u := by
  simp only [evidence?, hkind, htext]

theorem evidence?_of_plain {t : Token} (h : t.kind = .plain) : evidence? t = none := by
  simp only [evidence?, h]

variable {weight : Evidence → Nat}

theorem total_append (first second : List Token) :
    total weight (first ++ second) = total weight first + total weight second := by
  simp [total]

theorem total_cons (t : Token) (tokens : List Token) :
    total weight (t :: tokens) = (evidence? t).elim 0 weight + total weight tokens :=
  List.sum_cons

theorem total_cons_of_plain {t : Token} (h : t.kind = .plain) (tokens : List Token) :
    total weight (t :: tokens) = total weight tokens := by
  rw [total_cons, evidence?_of_plain h, Option.elim_none, Nat.zero_add]

theorem total_map {f : Token → Token} (h : ∀ t, evidence? (f t) = evidence? t)
    (tokens : List Token) : total weight (tokens.map f) = total weight tokens := by
  simp only [total, List.map_map, Function.comp_def, h]

/-- Tokens with the same evidence have the same score. -/
theorem score_map {f : Token → Token} (h : ∀ t, evidence? (f t) = evidence? t)
    (tokens : List Token) : score (tokens.map f) = score tokens := by
  simp only [score, tally, List.foldl_map, h]

/-- Plain text that is joined at a seam takes no evidence away. -/
theorem total_joinSeam (first second : List Token) :
    total weight (Token.joinSeam first second) = total weight first + total weight second := by
  obtain happ | ⟨init, last, next, rest, rfl, rfl, hlast, hnext, hjoined⟩ :=
    Token.joinSeam_cases first second
  · rw [happ, total_append]
  · have hseam : total weight ({ last with text := last.text ++ next.text } :: rest) =
        total weight rest :=
      total_cons_of_plain (t := { last with text := last.text ++ next.text }) hlast rest
    have hinit : total weight [last] = 0 := total_cons_of_plain hlast []
    rw [hjoined, total_append, total_append, hseam, hinit, total_cons_of_plain hnext, Nat.add_zero]

end Relevance
end LiquidsoapHighlight
