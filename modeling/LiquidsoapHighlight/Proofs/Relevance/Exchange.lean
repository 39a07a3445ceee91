import LiquidsoapHighlight.Proofs.Regex.Exchange
import LiquidsoapHighlight.Proofs.Relevance.Totals

/-!
Evidence in texts whose characters are exchanged. None of the names and signs that count has the
characters, so that the evidence stays the same.
-/

namespace LiquidsoapHighlight
namespace Relevance

section Swap
variable {c d : Char}

theorem map_swap_eq_iff {name : List Char} (h : lacks c d name = true) (text : List Char) :
    text.map (Equiv.swap c d) = name ↔ text = name := by
  conv_lhs => rw [← map_swap_of_lacks h]
  exact (List.map_injective_iff.mpr (Equiv.swap c d).injective).eq_iff

theorem beq_map_swap {name : List Char} (h : lacks c d name = true) (text : List Char) :
    (text.map (Equiv.swap c d) == name) = (text == name) := by
  rw [Bool.eq_iff_iff, beq_iff_eq, beq_iff_eq, map_swap_eq_iff h]

theorem contains_map_swap {names : List (List Char)} (h : names.all (lacks c d) = true)
    (text : List Char) : names.contains (text.map (Equiv.swap c d)) = names.contains text := by
  induction names with
  | nil => rfl
  | cons name names ih =>
      obtain ⟨hname, hnames⟩ := Bool.and_eq_true_iff.mp h
      rw [List.contains_cons, List.contains_cons, beq_map_swap hname, ih hnames]

theorem lookup_map_swap {names : List (List Char × UInt32)}
    (h : (names.all fun name => lacks c d name.1) = true) (text : List Char) :
    names.lookup (text.map (Equiv.swap c d)) = names.lookup text := by
  induction names with
  | nil => rfl
  | cons name names ih =>
      obtain ⟨key, weight⟩ := name
      obtain ⟨hkey, hnames⟩ := Bool.and_eq_true_iff.mp h
      simp only [List.lookup_cons, beq_map_swap hkey, ih hnames]

theorem isKnownDirective_cons (x : Char) (rest : List Char) :
    isKnownDirective (x :: rest) =
      (x == '%' && directives.contains (rest.takeWhile fun y => y != '.' && y != '(')) := by
  by_cases hx : x = '%'
  · subst hx
    rfl
  · simp [isKnownDirective, hx]

/-- None of the names and signs that are looked for in the texts of tokens has the characters. -/
structure KeepsSigns (c d : Char) : Prop where
  directiveSigns : (['%', '.', '('].all fun sign => sign != c && sign != d) = true
  directives : directives.all (lacks c d) = true
  distinctiveNames : (distinctiveNames.all fun name => lacks c d name.1) = true
  supportingNames : supportingNames.all (lacks c d) = true
  supportingKeywords : supportingKeywords.all (lacks c d) = true
  supportingOperators : supportingOperators.all (lacks c d) = true
  replaces : lacks c d "replaces".toList = true
  interpolationOpen : lacks c d Liquidsoap.interpolationOpen = true
  blockCommentOpen : lacks c d Liquidsoap.blockCommentOpen = true
  blockCommentClose : lacks c d Liquidsoap.blockCommentClose = true

theorem isKnownDirective_map_swap (h : KeepsSigns c d) (text : List Char) :
    isKnownDirective (text.map (Equiv.swap c d)) = isKnownDirective text := by
  have hsign : ∀ sign ∈ ['%', '.', '('], ∀ x, (Equiv.swap c d x == sign) = (x == sign) := by
    intro sign hs x
    have hapart := List.all_eq_true.mp h.directiveSigns sign hs
    rw [Bool.and_eq_true, bne_iff_ne, bne_iff_ne] at hapart
    conv_lhs => rw [← Equiv.swap_apply_of_ne_of_ne hapart.1 hapart.2]
    rw [Bool.eq_iff_iff, beq_iff_eq, beq_iff_eq, (Equiv.swap c d).apply_eq_iff_eq]
  cases text with
  | nil => rfl
  | cons x rest =>
      have hname : (fun y => y != '.' && y != '(') ∘ Equiv.swap c d =
          fun y => y != '.' && y != '(' :=
        funext fun y => by
          simp only [Function.comp_apply, bne, hsign '.' (by simp), hsign '(' (by simp)]
      rw [List.map_cons, isKnownDirective_cons, isKnownDirective_cons, hsign '%' (by simp),
        List.takeWhile_map, hname, contains_map_swap h.directives]

theorem isClosedComment_map_swap (h : KeepsSigns c d) (text : List Char) :
    isClosedComment (text.map (Equiv.swap c d)) = isClosedComment text := by
  have hsuffix : Liquidsoap.blockCommentClose.isSuffixOf (text.map (Equiv.swap c d)) =
      Liquidsoap.blockCommentClose.isSuffixOf text := by
    conv_lhs => rw [← map_swap_of_lacks h.blockCommentClose]
    rw [Bool.eq_iff_iff, List.isSuffixOf_iff_suffix, List.isSuffixOf_iff_suffix]
    exact List.suffix_map_iff_of_injective (Equiv.swap c d).injective
  rw [isClosedComment, isClosedComment, hsuffix, isPrefixOf_map_swap_of_lacks h.blockCommentOpen]

/-- A token with the characters exchanged in its text has the same evidence. -/
theorem evidence?_map_swap (h : KeepsSigns c d) (t : Token) :
    evidence? { t with text := t.text.map (Equiv.swap c d) } = evidence? t := by
  simp only [evidence?, nameEvidence?, isKnownDirective_map_swap h, isClosedComment_map_swap h,
    map_swap_eq_iff h.replaces, contains_map_swap h.supportingKeywords,
    contains_map_swap h.supportingOperators, beq_map_swap h.interpolationOpen,
    lookup_map_swap h.distinctiveNames, contains_map_swap h.supportingNames]

end Swap

end Relevance
end LiquidsoapHighlight
