import LiquidsoapHighlight.Proofs.Regex.Bounds
import LiquidsoapHighlight.Scanner.Basic

/-!
The first rule that matches. Rules that do not match are passed over, and where one of the rules
catches every character, some rule matches at each text that is not at its end.
-/

namespace LiquidsoapHighlight

theorem Pattern.matchCount?_anyChar {text : List Char} (h : text ≠ []) :
    anyChar.matchCount? text = some 1 := by
  simp [matchCount?, candidate?, h]

theorem Pattern.eq_anyChar {p : Pattern} (h : p.isCatchAll = true) : p = .anyChar := by
  cases p with
  | anyChar => rfl
  | literal _ | oneOf _ | keywords _ | expression _ _ => cases h

namespace Grammar

theorem firstMatch?_cons_none {rule : Rule} {text : List Char} (rules : List Rule)
    (h : rule.pattern.matchCount? text = none) :
    firstMatch? (rule :: rules) text = firstMatch? rules text := by
  simp [firstMatch?, h]

theorem firstMatch?_cons_some {rule : Rule} {text : List Char} {count : Nat} (rules : List Rule)
    (h : rule.pattern.matchCount? text = some count) :
    firstMatch? (rule :: rules) text = some (rule, count) := by
  simp [firstMatch?, h]

theorem firstMatch?_append_of_none {front : List Rule} {text : List Char} (rules : List Rule)
    (h : ∀ rule ∈ front, rule.pattern.matchCount? text = none) :
    firstMatch? (front ++ rules) text = firstMatch? rules text := by
  induction front with
  | nil => rfl
  | cons first front ih =>
      obtain ⟨hfirst, hfront⟩ := List.forall_mem_cons.mp h
      rw [List.cons_append, firstMatch?_cons_none _ hfirst, ih hfront]

theorem firstMatch?_append_of_some {front : List Rule} {text : List Char} {found : Rule × Nat}
    (h : firstMatch? front text = some found) (rules : List Rule) :
    firstMatch? (front ++ rules) text = some found := by
  simp only [firstMatch?, List.findSome?_append] at h ⊢
  rw [h, Option.some_or]

theorem firstMatch?_congr {rules : List Rule} {text other : List Char}
    (h : ∀ rule ∈ rules, rule.pattern.matchCount? other = rule.pattern.matchCount? text) :
    firstMatch? rules other = firstMatch? rules text := by
  induction rules with
  | nil => rfl
  | cons first rules ih =>
      obtain ⟨hfirst, hrules⟩ := List.forall_mem_cons.mp h
      have hrest : List.findSome? _ rules = List.findSome? _ rules := ih hrules
      simp only [firstMatch?, List.findSome?_cons, hfirst, hrest]

/-- Neighbours of which at most one matches can change places. -/
theorem firstMatch?_exchange {first second : Rule} {text : List Char}
    (h : first.pattern.matchCount? text = none ∨ second.pattern.matchCount? text = none)
    (front back : List Rule) :
    firstMatch? (front ++ first :: second :: back) text =
      firstMatch? (front ++ second :: first :: back) text := by
  simp only [firstMatch?, List.findSome?_append, List.findSome?_cons]
  obtain h | h := h <;> rw [h, Option.map_none]

theorem matchCount?_of_firstMatch? {rules : List Rule} {text : List Char} {rule : Rule}
    {count : Nat} (h : firstMatch? rules text = some (rule, count)) :
    rule ∈ rules ∧ rule.pattern.matchCount? text = some count := by
  obtain ⟨first, hmem, hf⟩ := List.exists_of_findSome?_eq_some h
  obtain ⟨n, hn, he⟩ := Option.map_eq_some_iff.mp hf
  obtain ⟨rfl, rfl⟩ := Prod.mk.inj he
  exact ⟨hmem, hn⟩

theorem exists_firstMatch? {rules : List Rule} {rule : Rule} {text : List Char} {n : Nat}
    (hmem : rule ∈ rules) (h : rule.pattern.matchCount? text = some n) :
    ∃ first count, firstMatch? rules text = some (first, count) := by
  cases hf : firstMatch? rules text with
  | none =>
      have hnone := List.findSome?_eq_none_iff.mp hf rule hmem
      rw [h] at hnone
      cases hnone
  | some found => exact ⟨found.1, found.2, rfl⟩

/-- Where one of the rules catches all, a rule matches at a text that is not empty. -/
theorem exists_firstMatch?_of_catchAll {rules : List Rule}
    (h : ∃ rule ∈ rules, rule.pattern.isCatchAll = true) {text : List Char} (hne : text ≠ []) :
    ∃ rule count, firstMatch? rules text = some (rule, count) := by
  obtain ⟨rule, hmem, hcatch⟩ := h
  have hmatch := Pattern.matchCount?_anyChar hne
  rw [← Pattern.eq_anyChar hcatch] at hmatch
  exact exists_firstMatch? hmem hmatch

/-- The move is that of the first rule that matches. -/
theorem move_eq {g : Grammar} {mode : Mode} {rules : List Rule} {text : List Char} {rule : Rule}
    {count : Nat} (hg : g.rules? mode = some rules)
    (h : firstMatch? rules text = some (rule, count)) :
    g.move mode text = ⟨rule.kind, count, rule.transition⟩ := by
  simp [move, hg, h]

end Grammar
end LiquidsoapHighlight
