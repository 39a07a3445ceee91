import LiquidsoapHighlight.Grammar.Build

/-!
What is known of a grammar that has been built. The top level and all modes that rules lead to have
rules, and the rules of each mode end with one that catches all.
-/

namespace LiquidsoapHighlight

namespace Check
variable {α β ε : Type}

theorem bind_eq_ok {x : Except ε α} {f : α → Except ε β} {b : β} :
    x >>= f = .ok b ↔ ∃ a, x = .ok a ∧ f a = .ok b := by
  cases x <;> simp [bind, Except.bind]

theorem map_eq_ok {x : Except ε α} {f : α → β} {b : β} :
    x.map f = .ok b ↔ ∃ a, x = .ok a ∧ f a = b := by
  cases x <;> simp [Except.map]

/-- Checks of all members of a list succeed if each of them does. -/
theorem forM_eq_ok {xs : List α} {f : α → Except ε Unit} :
    xs.forM f = .ok () ↔ ∀ x ∈ xs, f x = .ok () := by
  induction xs with
  | nil => simp [List.forM, pure, Except.pure]
  | cons x xs ih =>
      change (f x >>= fun _ => xs.forM f) = _ ↔ _
      rw [bind_eq_ok, List.forall_mem_cons, ← ih]
      exact ⟨fun ⟨_, hx, hxs⟩ => ⟨hx, hxs⟩, fun ⟨hx, hxs⟩ => ⟨(), hx, hxs⟩⟩

/-- A check that stops at a defect lets pass only what does not have it. -/
theorem unless_eq_ok {c : Bool} {e : ε} {x : Except ε β} {b : β} :
    (if c = true then (do Except.error e; x) else x) = .ok b ↔ c = false ∧ x = .ok b := by
  cases c <;> simp [bind, Except.bind]

end Check

namespace ModeDefinition

theorem check_eq_ok {definition : ModeDefinition} : definition.check = .ok () ↔
    (∀ rule ∈ definition.rules, rule.check definition.mode = .ok ()) ∧
      checkCatchAll definition.mode definition.rules = .ok () := by
  rw [check, Check.bind_eq_ok, ← Check.forM_eq_ok]
  exact ⟨fun ⟨_, hrules, hlast⟩ => ⟨hrules, hlast⟩, fun ⟨hrules, hlast⟩ => ⟨(), hrules, hlast⟩⟩

theorem exists_catchAll {mode : Mode} {rules : List Rule}
    (h : checkCatchAll mode rules = .ok ()) : ∃ rule ∈ rules, rule.pattern.isCatchAll = true := by
  unfold checkCatchAll at h
  split at h
  · next hlast =>
      obtain ⟨rule, hl, hcatch⟩ := (Option.any_eq_true _ _).mp hlast
      exact ⟨rule, List.mem_of_getLast? hl, hcatch⟩
  · cases h

end ModeDefinition

namespace Grammar

/-- No mode without rules can be come to, and in no mode a character can be left without a rule. -/
structure Complete (g : Grammar) : Prop where
  topLevel : (g.rules? .topLevel).isSome
  targets : ∀ mode rules, g.rules? mode = some rules → ∀ rule ∈ rules, ∀ target,
    rule.transition.target? = some target → (g.rules? target).isSome
  catchAll : ∀ mode rules, g.rules? mode = some rules →
    ∃ rule ∈ rules, rule.pattern.isCatchAll = true

/-- The rules of a mode are those of a definition that has been checked. -/
theorem exists_definition {g built : Grammar} {definitions : List ModeDefinition}
    (h : g.addAll definitions = .ok built) {mode : Mode} {rules : List Rule}
    (hr : built.rules? mode = some rules) :
    g.rules? mode = some rules ∨ ∃ definition ∈ definitions,
      definition.mode = mode ∧ definition.rules = rules ∧ definition.check = .ok () := by
  induction definitions generalizing g with
  | nil =>
      obtain rfl := Except.ok.inj h
      exact .inl hr
  | cons definition definitions ih =>
      simp only [addAll, Check.bind_eq_ok, Check.unless_eq_ok] at h
      obtain ⟨_, hcheck, _, hrest⟩ := h
      cases ih hrest with
      | inl hdefine =>
          simp only [define] at hdefine
          split at hdefine
          · next hmode =>
              exact .inr ⟨definition, List.mem_cons_self, hmode.symm, Option.some.inj hdefine,
                hcheck⟩
          · exact .inl hdefine
      | inr hlater =>
          obtain ⟨later, hmem, hlater⟩ := hlater
          exact .inr ⟨later, List.mem_cons_of_mem _ hmem, hlater⟩

theorem checkTarget_eq_ok {g : Grammar} {mode : Mode} {rule : Rule} :
    g.checkTarget mode rule = .ok () ↔
      ∀ target, rule.transition.target? = some target → (g.rules? target).isSome := by
  unfold checkTarget
  cases rule.transition.target? with
  | none => simp
  | some target => cases hr : g.rules? target <;> simp [hr]

theorem checkTargets_eq_ok {g : Grammar} : g.checkTargets = .ok () ↔
    (g.rules? .topLevel).isSome ∧ ∀ mode, ∀ rule ∈ (g.rules? mode).getD [], ∀ target,
      rule.transition.target? = some target → (g.rules? target).isSome := by
  simp only [checkTargets, Check.unless_eq_ok, Check.forM_eq_ok, checkTarget_eq_ok, Mode.mem_all,
    true_implies, Option.isNone_eq_false_iff]

/-- What is built is complete. -/
theorem complete_of_build {definitions : List ModeDefinition} {g : Grammar}
    (h : build definitions = .ok g) : g.Complete := by
  simp only [build, Check.bind_eq_ok] at h
  obtain ⟨g', hadd, _, htargets, hg⟩ := h
  obtain rfl := Except.ok.inj hg
  obtain ⟨htop, hrules⟩ := checkTargets_eq_ok.mp htargets
  refine ⟨htop, fun mode rules hr rule hmem => ?_, fun mode rules hr => ?_⟩
  · apply hrules mode rule
    rwa [hr]
  · obtain hempty | ⟨definition, _, _, rfl, hcheck⟩ := exists_definition hadd hr
    · cases hempty
    · exact ModeDefinition.exists_catchAll (ModeDefinition.check_eq_ok.mp hcheck).2

end Grammar
end LiquidsoapHighlight
