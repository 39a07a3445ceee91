import LiquidsoapHighlight.Proofs.Regex.Continuation

/-!
Rules at texts that begin alike and go on differently. A rule for a run of characters may take all
of the common beginning and go on from there; other rules stop at its end. The first match is then
the same for both texts, or it reaches beyond the beginning in both.
-/

namespace LiquidsoapHighlight

namespace Rule

/-- The rule matches the same in a text that goes on, or it stays in its mode and takes all of the
text by itself. -/
def StopsBefore (ending text : List Char) (rule : Rule) : Prop :=
  rule.pattern.matchCount? (text ++ ending) = rule.pattern.matchCount? text ∨
    rule.transition = .stay ∧ rule.pattern.matchCount? text = some text.length

/-- The rule takes the longest run of characters of a class. -/
structure IsRun (rule : Rule) (w : WrittenRegex) (s : CharClass) : Prop where
  pattern : rule.pattern = .expression w false
  regex : w.regex = .plus (.oneOf s)
  stays : rule.transition = .stay

namespace IsRun
variable {rule : Rule} {w : WrittenRegex} {s : CharClass}

theorem matchCount? (h : rule.IsRun w s) (text : List Char) :
    rule.pattern.matchCount? text =
      if text.takeWhile s.contains = [] then none
      else some (text.takeWhile s.contains).length := by
  rw [h.pattern, Pattern.matchCount?_run h.regex]

/-- A run that ends in the text ends there however the text goes on. -/
theorem matchCount?_append (h : rule.IsRun w s) {text : List Char}
    (hshort : text.takeWhile s.contains ≠ text) (ending : List Char) :
    rule.pattern.matchCount? (text ++ ending) = rule.pattern.matchCount? text := by
  have hlength : (text.takeWhile s.contains).length ≠ text.length :=
    fun hl => hshort ((List.takeWhile_prefix _).eq_of_length hl)
  rw [h.matchCount?, h.matchCount?, List.takeWhile_append, if_neg hlength]

/-- A run of all of the text goes on with what is in the class. -/
theorem matchCount?_append_of_all (h : rule.IsRun w s) {text : List Char} (hne : text ≠ [])
    (hall : text.takeWhile s.contains = text) (ending : List Char) :
    rule.pattern.matchCount? (text ++ ending) =
      some (text.length + (ending.takeWhile s.contains).length) := by
  rw [h.matchCount?, List.takeWhile_append, if_pos (congrArg List.length hall),
    if_neg (List.append_ne_nil_of_left_ne_nil hne _), List.length_append]

theorem stopsBefore (h : rule.IsRun w s) (ending : List Char) {text : List Char}
    (hne : text ≠ []) : rule.StopsBefore ending text := by
  by_cases hall : text.takeWhile s.contains = text
  · refine .inr ⟨h.stays, ?_⟩
    rw [h.matchCount?, hall, if_neg hne]
  · exact .inl (h.matchCount?_append hall ending)

end IsRun

/-- The rule matches the same at both texts, or it takes more than so many characters of each. -/
def AgreesTo (limit : Nat) (text other : List Char) (rule : Rule) : Prop :=
  rule.pattern.matchCount? text = rule.pattern.matchCount? other ∨
    (∃ n, rule.pattern.matchCount? text = some n ∧ limit < n) ∧
      ∃ n, rule.pattern.matchCount? other = some n ∧ limit < n

theorem agreesTo_of_avoids {rule : Rule} {text : List Char} {c : Char}
    (h : rule.pattern.avoids c = true) (hne : text ≠ []) (tail tail' : List Char) :
    rule.AgreesTo text.length (text ++ c :: tail) (text ++ c :: tail') := by
  left
  rw [Pattern.matchCount?_append (Pattern.stopsAt_of_avoids h text tail) hne,
    Pattern.matchCount?_append (Pattern.stopsAt_of_avoids h text tail') hne]

theorem IsRun.agreesTo {rule : Rule} {w : WrittenRegex} {s : CharClass} (h : rule.IsRun w s)
    {text : List Char} (hne : text ≠ []) {c : Char} (hc : s.contains c = true)
    (tail tail' : List Char) :
    rule.AgreesTo text.length (text ++ c :: tail) (text ++ c :: tail') := by
  by_cases hall : text.takeWhile s.contains = text
  · right
    rw [h.matchCount?_append_of_all hne hall, h.matchCount?_append_of_all hne hall]
    simp [hc]
  · left
    rw [h.matchCount?_append hall, h.matchCount?_append hall]

end Rule

namespace Grammar

theorem firstMatch?_append {rules : List Rule} {text ending : List Char} {rule : Rule}
    {count : Nat} (h : ∀ r ∈ rules, r.StopsBefore ending text)
    (hf : firstMatch? rules text = some (rule, count))
    (hcut : count < text.length ∨ rule.transition ≠ .stay) :
    firstMatch? rules (text ++ ending) = some (rule, count) := by
  induction rules with
  | nil => cases hf
  | cons first rules ih =>
      obtain ⟨hfirst, hrules⟩ := List.forall_mem_cons.mp h
      rw [Rule.StopsBefore] at hfirst
      cases hm : first.pattern.matchCount? text with
      | none =>
          rw [firstMatch?_cons_none rules hm] at hf
          rw [hm] at hfirst
          have hnone := hfirst.resolve_right fun hstay => Option.some_ne_none _ hstay.2.symm
          rw [firstMatch?_cons_none rules hnone]
          exact ih hrules hf
      | some taken =>
          rw [firstMatch?_cons_some rules hm] at hf
          obtain ⟨rfl, rfl⟩ := Prod.mk.inj (Option.some.inj hf)
          rw [hm] at hfirst
          refine firstMatch?_cons_some rules (hfirst.resolve_right ?_)
          rintro ⟨hstay, hall⟩
          obtain rfl := Option.some.inj hall
          exact hcut.elim (Nat.lt_irrefl _) fun hne => hne hstay

/-- The first match is the same at both texts, or it takes more than so many characters of each. -/
theorem firstMatch?_agrees {limit : Nat} {rules : List Rule} {text other : List Char}
    (h : ∀ rule ∈ rules, rule.AgreesTo limit text other) :
    firstMatch? rules text = firstMatch? rules other ∨
      (∃ rule n, firstMatch? rules text = some (rule, n) ∧ limit < n) ∧
        ∃ rule n, firstMatch? rules other = some (rule, n) ∧ limit < n := by
  induction rules with
  | nil => exact .inl rfl
  | cons first rules ih =>
      obtain ⟨hfirst, hrules⟩ := List.forall_mem_cons.mp h
      obtain hsame | ⟨⟨n, hn, hlt⟩, n', hn', hlt'⟩ := hfirst
      · cases hm : first.pattern.matchCount? text with
        | none =>
            rw [firstMatch?_cons_none rules hm, firstMatch?_cons_none rules (hsame.symm.trans hm)]
            exact ih hrules
        | some taken =>
            rw [firstMatch?_cons_some rules hm, firstMatch?_cons_some rules (hsame.symm.trans hm)]
            exact .inl rfl
      · exact .inr ⟨⟨first, n, firstMatch?_cons_some rules hn, hlt⟩,
          first, n', firstMatch?_cons_some rules hn', hlt'⟩

end Grammar
end LiquidsoapHighlight
