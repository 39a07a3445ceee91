import LiquidsoapHighlight.Proofs.Grammar.LongestMatch

/-!
In each mode of Liquidsoap every rule outlasts those after it, so that taking the first rule which
matches is taking the longest match.
-/

namespace LiquidsoapHighlight
namespace Liquidsoap

theorem outlasts_rules (mode : Mode) :
    (rules mode).Pairwise fun rule later => rule.pattern.outlasts later.pattern = true := by
  cases mode <;> decide +kernel

/-- At a text that is not empty a rule matches, and the first that does takes at least as much as
any other that does. -/
theorem first_match_longest (mode : Mode) (c : Char) (rest : List Char) :
    ∃ rule count, Grammar.firstMatch? (rules mode) (c :: rest) = some (rule, count) ∧
      grammar.move mode (c :: rest) = ⟨rule.kind, count, rule.transition⟩ ∧
      (Grammar.matching (rules mode) (c :: rest)).head? =
        some (rule, Text.byteLength ((c :: rest).take count)) ∧
      ∀ other ∈ Grammar.matching (rules mode) (c :: rest),
        other.2 ≤ Text.byteLength ((c :: rest).take count) := by
  obtain ⟨rule, _, count, hf, _⟩ := exists_firstMatch mode (List.cons_ne_nil c rest)
  refine ⟨rule, count, hf, move_of_firstMatch hf, ?_, ?_⟩
  · rw [Grammar.head?_matching, hf]
    rfl
  · intro other hother
    obtain ⟨r, hr, hm⟩ := List.mem_filterMap.mp hother
    obtain ⟨length, hl, rfl⟩ := Option.map_eq_some_iff.mp hm
    obtain ⟨n, hn, rfl⟩ := Option.map_eq_some_iff.mp hl
    have hle := Grammar.count_le_firstMatch (outlasts_rules mode) hf r hr n hn
    exact Text.byteLength_le_of_prefix (List.take_prefix_take_left hle)

end Liquidsoap
end LiquidsoapHighlight
