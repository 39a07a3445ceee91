import Mathlib.Data.List.Infix
import LiquidsoapHighlight.Report

/-!
When a report has a hint. The hint comes with a headline in which the words for a config file occur,
whoever put them there; no other line of the report can be taken for it.
-/

namespace LiquidsoapHighlight
namespace Report

theorem occursIn_iff (part text : List Char) : occursIn part text = true ↔ part <:+: text := by
  induction text with
  | nil => simp [occursIn]
  | cons c rest ih =>
      rw [occursIn, Bool.or_eq_true, ih, List.isPrefixOf_iff_prefix, List.infix_cons_iff]

theorem help?_eq (headline : List Char) :
    help? headline = some configHelp ↔ "config file".toList <:+: headline := by
  rw [help?, ← occursIn_iff]
  split <;> simp_all

section
variable {α : Type} {part front back : List α}

/-- What starts with a letter that is not in front begins after it. -/
theorem infix_append_iff_of_head {c : α} (h : c ∉ front) :
    c :: part <:+: front ++ back ↔ c :: part <:+: back := by
  induction front with
  | nil => rfl
  | cons x front ih =>
      simp only [List.mem_cons, not_or] at h
      rw [List.cons_append, List.infix_cons_iff, ih h.2]
      simp [List.cons_prefix_cons, h.1]

theorem prefix_append_cons_iff {sep : α} (h : sep ∉ part) :
    part <+: front ++ sep :: back ↔ part <+: front := by
  induction front generalizing part with
  | nil =>
      cases part with
      | nil => simp
      | cons x part =>
          simp only [List.mem_cons, not_or] at h
          simp [List.cons_prefix_cons, Ne.symm h.1]
  | cons y front ih =>
      cases part with
      | nil => simp
      | cons x part =>
          simp only [List.mem_cons, not_or] at h
          rw [List.cons_append, List.cons_prefix_cons, List.cons_prefix_cons, ih h.2]

/-- What does not have a separator in it is on one side of it. -/
theorem infix_append_cons_iff {sep : α} (h : sep ∉ part) :
    part <:+: front ++ sep :: back ↔ part <:+: front ∨ part <:+: back := by
  induction front with
  | nil =>
      have none : part <+: sep :: back ↔ part <+: [] := @prefix_append_cons_iff α part [] back sep h
      rw [List.nil_append]
      rw [List.infix_cons_iff, none, List.prefix_nil, List.infix_nil]
  | cons y front ih =>
      rw [List.cons_append, List.infix_cons_iff, ih, ← List.cons_append, prefix_append_cons_iff h,
        List.infix_cons_iff, or_assoc]

end

theorem headlineText_ne_helpText (colors : Bool) (headline help : List Char) :
    headlineText colors headline ≠ helpText colors help := by
  intro same
  have sixth := congrArg (·[5]?) same
  cases colors with
  | false => exact absurd (show some ':' = some ' ' from sixth) (by decide)
  | true => exact absurd (show some '1' = some '6' from sixth) (by decide)

theorem causeText_ne_helpText (colors : Bool) (cause help : List Char) :
    causeText colors cause ≠ helpText colors help := by
  intro same
  have first := congrArg List.head? same
  cases colors with
  | false => exact absurd (show some ' ' = some 'h' from first) (by decide)
  | true => exact absurd (show some ' ' = some '\x1b' from first) (by decide)

theorem helpText_ne_nil (colors : Bool) (help : List Char) : helpText colors help ≠ [] := by
  simp [helpText]

/-- A hint is shown if the report has it. -/
theorem helpText_mem_lines (colors : Bool) (r : Report) (help : List Char) :
    helpText colors help ∈ r.lines colors ↔ r.help = some help := by
  have headline := (headlineText_ne_helpText colors r.headline help).symm
  have causes : helpText colors help ∉ r.causes.map (causeText colors) := by
    intro shown
    obtain ⟨cause, -, same⟩ := List.mem_map.mp shown
    exact causeText_ne_helpText colors cause help same
  rw [lines, List.mem_append, List.mem_cons, or_iff_right (not_or.mpr ⟨headline, causes⟩)]
  cases r.help with
  | none => simp
  | some given =>
      have same : helpText colors help = helpText colors given ↔ help = given :=
        List.append_right_inj _
      rw [List.mem_cons, List.mem_singleton, or_iff_right (helpText_ne_nil colors help), same,
        Option.some_inj, eq_comm]

end Report
end LiquidsoapHighlight
