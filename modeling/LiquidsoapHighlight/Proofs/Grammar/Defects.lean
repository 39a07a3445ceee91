import LiquidsoapHighlight.Proofs.Grammar.Built

/-!
What building a grammar accepts: exactly the well-formed definitions, of which the grammar is the
table. Definitions that are refused have the defect that is reported.
-/

namespace LiquidsoapHighlight

namespace Check
variable {α β ε : Type}

theorem bind_eq_error {x : Except ε α} {f : α → Except ε β} {e : ε} :
    x >>= f = .error e ↔ x = .error e ∨ ∃ a, x = .ok a ∧ f a = .error e := by
  cases x <;> simp [bind, Except.bind]

/-- Checks of the members of a list fail only by the check of one of them. -/
theorem exists_of_forM_eq_error {xs : List α} {f : α → Except ε Unit} {e : ε}
    (h : xs.forM f = .error e) : ∃ x ∈ xs, f x = .error e := by
  induction xs with
  | nil => cases h
  | cons x xs ih =>
      change (f x >>= fun _ => xs.forM f) = _ at h
      obtain hx | ⟨_, _, hxs⟩ := bind_eq_error.mp h
      · exact ⟨x, List.mem_cons_self, hx⟩
      · obtain ⟨y, hy, he⟩ := ih hxs
        exact ⟨y, List.mem_cons_of_mem x hy, he⟩

theorem unless_eq_error {c : Bool} {e e' : ε} {x : Except ε β} :
    (if c = true then (do Except.error e; x) else x) = .error e' ↔
      c = true ∧ e = e' ∨ c = false ∧ x = .error e' := by
  cases c <;> simp [bind, Except.bind]

end Check

/-- A rule that cannot match the empty text, whose words are words, and none of whose alternatives
is kept from matching by one before it. -/
structure Rule.WellFormed (rule : Rule) : Prop where
  length : ∃ fewest, rule.pattern.minLength? = some fewest ∧ 1 ≤ fewest
  words : ∀ words, rule.pattern = .keywords words → ∀ word ∈ words, Word.run word = word
  alternatives : ∀ alternatives, rule.pattern = .oneOf alternatives →
    alternatives.Pairwise fun earlier later => ¬ earlier <+: later

structure ModeDefinition.WellFormed (definition : ModeDefinition) : Prop where
  rules : ∀ rule ∈ definition.rules, rule.WellFormed
  catchAll : ∃ others last, definition.rules = others ++ [last] ∧ last.pattern = .anyChar ∧
    ∀ rule ∈ others, rule.pattern ≠ .anyChar

/-- The modes that definitions are given for, in their order. -/
def ModeDefinition.definedModes (definitions : List ModeDefinition) : List Mode :=
  definitions.map ModeDefinition.mode

/-- The rule leads to the mode by its name. -/
def Rule.LeadsTo (rule : Rule) (target : Mode) : Prop :=
  rule.transition = .push target ∨ rule.transition = .popTo target

structure Grammar.WellFormed (definitions : List ModeDefinition) : Prop where
  each : ∀ definition ∈ definitions, definition.WellFormed
  once : (ModeDefinition.definedModes definitions).Nodup
  topLevel : .topLevel ∈ ModeDefinition.definedModes definitions
  targets : ∀ definition ∈ definitions, ∀ rule ∈ definition.rules, ∀ target, rule.LeadsTo target →
    target ∈ ModeDefinition.definedModes definitions

/-- The grammar has the rules of the definitions, and no others. -/
structure Grammar.IsTableOf (g : Grammar) (definitions : List ModeDefinition) : Prop where
  defined : ∀ definition ∈ definitions, g.rules? definition.mode = some definition.rules
  undefined : ∀ mode, mode ∉ ModeDefinition.definedModes definitions → g.rules? mode = none

/-- Among the rules given for the mode there is one of the name that has the property. -/
def ModeDefinition.HasRule (definitions : List ModeDefinition) (mode : Mode) (name : String)
    (property : Rule → Prop) : Prop :=
  ∃ definition ∈ definitions, definition.mode = mode ∧
    ∃ rule ∈ definition.rules, rule.name = name ∧ property rule

namespace GrammarError

open ModeDefinition (definedModes HasRule)

/-- The defect is there in the definitions: what it names has the fault that it stands for. -/
def OccursIn (definitions : List ModeDefinition) : GrammarError → Prop
  | zeroLengthPattern mode name =>
    HasRule definitions mode name fun rule => rule.pattern.minLength? = some 0
  | unmatchablePattern mode name =>
    HasRule definitions mode name fun rule => rule.pattern.minLength? = none
  | invalidKeyword mode name word =>
    HasRule definitions mode name fun rule =>
      ∃ words, rule.pattern = .keywords words ∧ word ∈ words ∧ Word.run word ≠ word
  | shadowedAlternative mode name alternative shadow =>
    HasRule definitions mode name fun rule => ∃ front between back,
      rule.pattern = .oneOf (front ++ shadow :: (between ++ alternative :: back)) ∧
        shadow <+: alternative
  | unreachableRule mode name =>
    ∃ definition ∈ definitions, definition.mode = mode ∧ ∃ front rule next back,
      definition.rules = front ++ rule :: next :: back ∧ rule.pattern = .anyChar ∧
        next.name = name
  | missingCatchAll mode =>
    ∃ definition ∈ definitions, definition.mode = mode ∧
      ∀ last ∈ definition.rules.getLast?, last.pattern ≠ .anyChar
  | duplicateMode mode =>
    ∃ front definition back, definitions = front ++ definition :: back ∧
      definition.mode = mode ∧ mode ∈ definedModes front
  | undefinedMode mode name target =>
    HasRule definitions mode name (·.LeadsTo target) ∧ target ∉ definedModes definitions
  | missingTopLevel => .topLevel ∉ definedModes definitions

end GrammarError

theorem Transition.target?_eq_some {t : Transition} {target : Mode} :
    t.target? = some target ↔ t = .push target ∨ t = .popTo target := by
  cases t <;> simp [Transition.target?]

theorem Pattern.isCatchAll_iff {p : Pattern} : p.isCatchAll = true ↔ p = .anyChar := by
  cases p <;> simp [isCatchAll]

namespace Rule
variable {mode : Mode} {rule : Rule}

theorem checkAlternatives_eq_ok {earlier rest : List (List Char)}
    (h : rule.checkAlternatives mode earlier rest = .ok ()) :
    (∀ a ∈ earlier, ∀ b ∈ rest, ¬ a <+: b) ∧ rest.Pairwise fun a b => ¬ a <+: b := by
  induction rest generalizing earlier with
  | nil => exact ⟨by simp, .nil⟩
  | cons alternative rest ih =>
      rw [checkAlternatives] at h
      split at h
      · cases h
      · next hnone =>
          obtain ⟨hbefore, hrest⟩ := ih h
          simp only [List.mem_append, List.mem_singleton] at hbefore
          refine ⟨fun a ha b hb => ?_, List.pairwise_cons.mpr ⟨fun b hb => ?_, hrest⟩⟩
          · obtain rfl | hb := List.mem_cons.mp hb
            · simpa using List.find?_eq_none.mp hnone a ha
            · exact hbefore a (.inl ha) b hb
          · exact hbefore alternative (.inr rfl) b hb

theorem checkAlternatives_eq_error {earlier rest : List (List Char)} {e : GrammarError}
    (h : rule.checkAlternatives mode earlier rest = .error e) :
    ∃ front shadow between alternative back,
      earlier ++ rest = front ++ shadow :: (between ++ alternative :: back) ∧
        shadow <+: alternative ∧ e = .shadowedAlternative mode rule.name alternative shadow := by
  induction rest generalizing earlier with
  | nil => cases h
  | cons alternative rest ih =>
      rw [checkAlternatives] at h
      split at h
      · next shadow hfind =>
          obtain ⟨front, between, rfl⟩ := List.append_of_mem (List.mem_of_find?_eq_some hfind)
          refine ⟨front, shadow, between, alternative, rest, by simp, ?_, (Except.error.inj h).symm⟩
          have hshadow := List.find?_some hfind
          exact List.isPrefixOf_iff_prefix.mp hshadow
      · obtain ⟨front, shadow, between, other, back, hsplit, hshadow⟩ := ih h
        refine ⟨front, shadow, between, other, back, ?_, hshadow⟩
        rw [← hsplit, List.append_assoc, List.singleton_append]

theorem wellFormed_of_check (h : rule.check mode = .ok ()) : rule.WellFormed := by
  obtain ⟨_, hlength, hwords⟩ := Check.bind_eq_ok.mp h
  refine ⟨?_, fun words hp word hword => ?_, fun alternatives hp => ?_⟩
  · unfold checkLength at hlength
    split at hlength
    · cases hlength
    · cases hlength
    · next fewest hzero hmin => exact ⟨fewest, hmin, Nat.pos_of_ne_zero hzero⟩
  · simp only [checkWords, hp] at hwords
    split at hwords
    · cases hwords
    · next hnone => simpa [Word.isWord] using List.find?_eq_none.mp hnone word hword
  · simp only [checkWords, hp] at hwords
    exact (checkAlternatives_eq_ok hwords).2

theorem occursIn_of_check {definitions : List ModeDefinition} {definition : ModeDefinition}
    {e : GrammarError} (hd : definition ∈ definitions) (hr : rule ∈ definition.rules)
    (h : rule.check definition.mode = .error e) : e.OccursIn definitions := by
  obtain hlength | ⟨_, _, hwords⟩ := Check.bind_eq_error.mp h
  · unfold checkLength at hlength
    split at hlength
    · next hmin =>
        obtain rfl := Except.error.inj hlength
        exact ⟨definition, hd, rfl, rule, hr, rfl, hmin⟩
    · next hmin =>
        obtain rfl := Except.error.inj hlength
        exact ⟨definition, hd, rfl, rule, hr, rfl, hmin⟩
    · cases hlength
  · unfold checkWords at hwords
    split at hwords
    · next words hp =>
        split at hwords
        · next word hfind =>
            obtain rfl := Except.error.inj hwords
            refine ⟨definition, hd, rfl, rule, hr, rfl, words, hp,
              List.mem_of_find?_eq_some hfind, ?_⟩
            simpa [Word.isWord] using List.find?_some hfind
        · cases hwords
    · next alternatives hp =>
        obtain ⟨front, shadow, between, alternative, back, hsplit, hshadow, rfl⟩ :=
          checkAlternatives_eq_error hwords
        rw [List.nil_append] at hsplit
        exact ⟨definition, hd, rfl, rule, hr, rfl, front, between, back, hsplit ▸ hp, hshadow⟩
    · cases hwords

end Rule

namespace ModeDefinition

theorem checkReachable_eq_ok {mode : Mode} {others : List Rule} {last : Rule}
    (h : checkReachable mode (others ++ [last]) = .ok ()) :
    ∀ rule ∈ others, rule.pattern ≠ .anyChar := by
  induction others with
  | nil => simp
  | cons rule others ih =>
      obtain ⟨next, rest, hnext⟩ := List.exists_cons_of_ne_nil
        (List.append_ne_nil_of_right_ne_nil others (List.cons_ne_nil last []))
      rw [List.cons_append, hnext, checkReachable, ← hnext] at h
      split at h
      · cases h
      · next hcatch =>
          rw [Pattern.isCatchAll_iff] at hcatch
          exact List.forall_mem_cons.mpr ⟨hcatch, ih h⟩

theorem checkReachable_eq_error {mode : Mode} {rules : List Rule} {e : GrammarError}
    (h : checkReachable mode rules = .error e) :
    ∃ front rule next back, rules = front ++ rule :: next :: back ∧ rule.pattern = .anyChar ∧
      e = .unreachableRule mode next.name := by
  fun_induction checkReachable mode rules with
  | case1 rule next rest hcatch =>
      exact ⟨[], rule, next, rest, rfl, Pattern.isCatchAll_iff.mp hcatch, (Except.error.inj h).symm⟩
  | case2 rule next rest _ ih =>
      obtain ⟨front, early, late, back, hsplit, hearly⟩ := ih h
      exact ⟨rule :: front, early, late, back, congrArg (List.cons rule) hsplit, hearly⟩
  | case3 => cases h

theorem wellFormed_of_check {definition : ModeDefinition} (h : definition.check = .ok ()) :
    definition.WellFormed := by
  obtain ⟨hrules, hlast⟩ := check_eq_ok.mp h
  refine ⟨fun rule hr => Rule.wellFormed_of_check (hrules rule hr), ?_⟩
  unfold checkCatchAll at hlast
  split at hlast
  · next hany =>
      obtain ⟨last, hl, hcatch⟩ := (Option.any_eq_true _ _).mp hany
      obtain ⟨others, hothers⟩ := List.getLast?_eq_some_iff.mp hl
      rw [hothers] at hlast
      exact ⟨others, last, hothers, Pattern.isCatchAll_iff.mp hcatch, checkReachable_eq_ok hlast⟩
  · cases hlast

theorem occursIn_of_check {definitions : List ModeDefinition} {definition : ModeDefinition}
    {e : GrammarError} (hd : definition ∈ definitions) (h : definition.check = .error e) :
    e.OccursIn definitions := by
  obtain hrules | ⟨_, _, hlast⟩ := Check.bind_eq_error.mp h
  · obtain ⟨rule, hr, he⟩ := Check.exists_of_forM_eq_error hrules
    exact Rule.occursIn_of_check hd hr he
  · unfold checkCatchAll at hlast
    split at hlast
    · obtain ⟨front, rule, next, back, hsplit, hcatch, rfl⟩ := checkReachable_eq_error hlast
      exact ⟨definition, hd, rfl, front, rule, next, back, hsplit, hcatch, rfl⟩
    · next hnone =>
        obtain rfl := Except.error.inj hlast
        refine ⟨definition, hd, rfl, fun last hl hany => hnone ?_⟩
        exact (Option.any_eq_true _ _).mpr ⟨last, hl, Pattern.isCatchAll_iff.mpr hany⟩

end ModeDefinition

namespace Grammar

open ModeDefinition (definedModes)

theorem rules?_define {g : Grammar} {definition : ModeDefinition} {mode : Mode} :
    (g.define definition).rules? mode =
      if mode = definition.mode then some definition.rules else g.rules? mode := rfl

/-- Definitions that are added have been checked, are for new modes, one for each, and have their
rules in the grammar, which changes for no other mode. -/
theorem addAll_eq_ok {g built : Grammar} {definitions : List ModeDefinition}
    (h : g.addAll definitions = .ok built) :
    (∀ definition ∈ definitions, definition.check = .ok () ∧ g.rules? definition.mode = none ∧
      built.rules? definition.mode = some definition.rules) ∧
      (definedModes definitions).Nodup ∧
      ∀ mode, mode ∉ definedModes definitions → built.rules? mode = g.rules? mode := by
  induction definitions generalizing g with
  | nil =>
      obtain rfl := Except.ok.inj h
      exact ⟨by simp, .nil, fun _ _ => rfl⟩
  | cons definition definitions ih =>
      simp only [addAll, Check.bind_eq_ok, Check.unless_eq_ok, Option.isSome_eq_false_iff,
        Option.isNone_iff_eq_none] at h
      obtain ⟨_, hcheck, hnew, hrest⟩ := h
      obtain ⟨hadded, honce, hothers⟩ := ih hrest
      have hfresh : definition.mode ∉ definedModes definitions := by
        intro hmem
        obtain ⟨later, hlater, hmode⟩ := List.mem_map.mp hmem
        have hnone := (hadded later hlater).2.1
        rw [rules?_define, if_pos hmode] at hnone
        cases hnone
      refine ⟨List.forall_mem_cons.mpr ⟨⟨hcheck, hnew, ?_⟩, fun later hlater => ?_⟩,
        List.nodup_cons.mpr ⟨hfresh, honce⟩, fun mode hmode => ?_⟩
      · rw [hothers _ hfresh, rules?_define, if_pos rfl]
      · obtain ⟨hlcheck, hlnew, hlrules⟩ := hadded later hlater
        rw [rules?_define] at hlnew
        split at hlnew
        · cases hlnew
        · exact ⟨hlcheck, hlnew, hlrules⟩
      · obtain ⟨hne, hmem⟩ := not_or.mp (mt List.mem_cons.mpr hmode)
        rw [hothers mode hmem, rules?_define, if_neg hne]

/-- Adding definitions fails at one that does not pass its check, or whose mode has rules. -/
theorem addAll_eq_error {g : Grammar} {definitions : List ModeDefinition} {e : GrammarError}
    (h : g.addAll definitions = .error e) :
    (∃ definition ∈ definitions, definition.check = .error e) ∨
      ∃ front definition back, definitions = front ++ definition :: back ∧
        ((g.rules? definition.mode).isSome ∨ definition.mode ∈ definedModes front) ∧
        e = .duplicateMode definition.mode := by
  induction definitions generalizing g with
  | nil => cases h
  | cons definition definitions ih =>
      simp only [addAll, Check.bind_eq_error, Check.unless_eq_error] at h
      obtain hcheck | ⟨_, _, ⟨hold, rfl⟩ | ⟨_, hrest⟩⟩ := h
      · exact .inl ⟨definition, List.mem_cons_self, hcheck⟩
      · exact .inr ⟨[], definition, definitions, rfl, .inl hold, rfl⟩
      · obtain ⟨later, hlater, he⟩ | ⟨front, later, back, rfl, hlater, he⟩ := ih hrest
        · exact .inl ⟨later, List.mem_cons_of_mem _ hlater, he⟩
        · refine .inr ⟨definition :: front, later, back, rfl, ?_, he⟩
          rw [rules?_define] at hlater
          split at hlater
          · next hmode => exact .inr (List.mem_cons.mpr (.inl hmode))
          · exact hlater.imp_right (List.mem_cons_of_mem _)

theorem isTableOf_of_addAll {g : Grammar} {definitions : List ModeDefinition}
    (h : empty.addAll definitions = .ok g) : g.IsTableOf definitions := by
  obtain ⟨hadded, _, hothers⟩ := addAll_eq_ok h
  exact ⟨fun definition hd => (hadded definition hd).2.2, hothers⟩

variable {g : Grammar} {definitions : List ModeDefinition}

theorem IsTableOf.isSome_iff (h : g.IsTableOf definitions) {mode : Mode} :
    (g.rules? mode).isSome ↔ mode ∈ definedModes definitions := by
  constructor
  · intro hsome
    by_cases hmem : mode ∈ definedModes definitions
    · exact hmem
    · rw [h.undefined mode hmem] at hsome
      cases hsome
  · intro hmem
    obtain ⟨definition, hd, rfl⟩ := List.mem_map.mp hmem
    rw [h.defined definition hd]
    rfl

/-- The rules of a mode are those of its definition. -/
theorem IsTableOf.exists_definition (h : g.IsTableOf definitions) {mode : Mode} {rule : Rule}
    (hr : rule ∈ (g.rules? mode).getD []) :
    ∃ definition ∈ definitions, definition.mode = mode ∧ rule ∈ definition.rules := by
  by_cases hmem : mode ∈ definedModes definitions
  · obtain ⟨definition, hd, rfl⟩ := List.mem_map.mp hmem
    rw [h.defined definition hd] at hr
    exact ⟨definition, hd, rfl, hr⟩
  · rw [h.undefined mode hmem] at hr
    cases hr

theorem occursIn_of_checkTargets (htable : g.IsTableOf definitions) {e : GrammarError}
    (h : g.checkTargets = .error e) : e.OccursIn definitions := by
  simp only [checkTargets, Check.unless_eq_error] at h
  obtain ⟨hnone, rfl⟩ | ⟨_, hrules⟩ := h
  · change .topLevel ∉ definedModes definitions
    rw [← htable.isSome_iff, Bool.not_eq_true, Option.isSome_eq_false_iff]
    exact hnone
  · obtain ⟨mode, _, hmode⟩ := Check.exists_of_forM_eq_error hrules
    obtain ⟨rule, hr, htarget⟩ := Check.exists_of_forM_eq_error hmode
    obtain ⟨definition, hd, rfl, hrule⟩ := htable.exists_definition hr
    unfold checkTarget at htarget
    split at htarget
    · next target hleads =>
        split at htarget
        · cases htarget
        · next hnone =>
            obtain rfl := Except.error.inj htarget
            rw [htable.isSome_iff] at hnone
            exact ⟨⟨definition, hd, rfl, rule, hrule, rfl, Transition.target?_eq_some.mp hleads⟩,
              hnone⟩
    · cases htarget

theorem wellFormed_of_build (h : build definitions = .ok g) :
    WellFormed definitions ∧ g.IsTableOf definitions := by
  obtain ⟨g', hadd, _, htargets, hg⟩ : ∃ g', empty.addAll definitions = .ok g' ∧
      ∃ u, g'.checkTargets = .ok u ∧ pure g' = Except.ok g := by
    simpa only [build, Check.bind_eq_ok] using h
  obtain rfl := Except.ok.inj hg
  have htable := isTableOf_of_addAll hadd
  obtain ⟨hadded, honce, _⟩ := addAll_eq_ok hadd
  obtain ⟨htop, hrules⟩ := checkTargets_eq_ok.mp htargets
  refine ⟨⟨fun definition hd => ModeDefinition.wellFormed_of_check (hadded definition hd).1, honce,
    htable.isSome_iff.mp htop, fun definition hd rule hr target hleads => ?_⟩, htable⟩
  apply htable.isSome_iff.mp
  refine hrules definition.mode rule ?_ target (Transition.target?_eq_some.mpr hleads)
  rw [htable.defined definition hd]
  exact hr

/-- Definitions that are refused have the defect that is reported. -/
theorem occursIn_of_build {e : GrammarError} (h : build definitions = .error e) :
    e.OccursIn definitions := by
  simp only [build, Check.bind_eq_error] at h
  obtain hadd | ⟨g, hadd, htargets | ⟨_, _, hpure⟩⟩ := h
  · obtain ⟨definition, hd, hcheck⟩ | ⟨front, definition, back, hsplit, hold, rfl⟩ :=
      addAll_eq_error hadd
    · exact ModeDefinition.occursIn_of_check hd hcheck
    · exact ⟨front, definition, back, hsplit, rfl, hold.resolve_left Bool.false_ne_true⟩
  · exact occursIn_of_checkTargets (isTableOf_of_addAll hadd) htargets
  · cases hpure

/-- Well-formed definitions have no defect. -/
theorem WellFormed.not_occursIn (h : WellFormed definitions) (e : GrammarError) :
    ¬ e.OccursIn definitions := by
  intro he
  cases e with
  | zeroLengthPattern mode name =>
      obtain ⟨definition, hd, _, rule, hr, _, hzero⟩ := he
      obtain ⟨fewest, hmin, hpos⟩ := ((h.each definition hd).rules rule hr).length
      obtain rfl := Option.some.inj (hzero.symm.trans hmin)
      exact Nat.not_lt_zero 0 hpos
  | unmatchablePattern mode name =>
      obtain ⟨definition, hd, _, rule, hr, _, hnone⟩ := he
      obtain ⟨fewest, hmin, _⟩ := ((h.each definition hd).rules rule hr).length
      cases hnone.symm.trans hmin
  | invalidKeyword mode name word =>
      obtain ⟨definition, hd, _, rule, hr, _, words, hp, hword, hne⟩ := he
      exact hne (((h.each definition hd).rules rule hr).words words hp word hword)
  | shadowedAlternative mode name alternative shadow =>
      obtain ⟨definition, hd, _, rule, hr, _, front, between, back, hp, hshadow⟩ := he
      have hpairs := ((h.each definition hd).rules rule hr).alternatives _ hp
      have hlater := (List.pairwise_cons.mp (List.pairwise_append.mp hpairs).2.1).1
      exact hlater alternative (by simp) hshadow
  | unreachableRule mode name =>
      obtain ⟨definition, hd, _, front, rule, next, back, hsplit, hcatch, _⟩ := he
      obtain ⟨others, last, hrules, _, hothers⟩ := (h.each definition hd).catchAll
      -- The rule before another one is not the last.
      have hmem : rule ∈ definition.rules.dropLast := by
        rw [hsplit, List.dropLast_append_cons, List.dropLast_cons_cons]
        simp
      rw [hrules, List.dropLast_concat] at hmem
      exact hothers rule hmem hcatch
  | missingCatchAll mode =>
      obtain ⟨definition, hd, _, hlast⟩ := he
      obtain ⟨others, last, hrules, hcatch, _⟩ := (h.each definition hd).catchAll
      exact hlast last (by rw [hrules, List.getLast?_concat]; rfl) hcatch
  | duplicateMode mode =>
      obtain ⟨front, definition, back, rfl, rfl, hmem⟩ := he
      have honce := h.once
      rw [definedModes, List.map_append, List.map_cons] at honce
      exact (List.nodup_append.mp honce).2.2 _ hmem _ List.mem_cons_self rfl
  | undefinedMode mode name target =>
      obtain ⟨⟨definition, hd, _, rule, hr, _, hleads⟩, hnone⟩ := he
      exact hnone (h.targets definition hd rule hr target hleads)
  | missingTopLevel => exact he h.topLevel

/-- A grammar is built from exactly the well-formed definitions and is their table. From others none
is built, and the error is about a defect that they have. -/
theorem build_accepts_wellFormed (definitions : List ModeDefinition) :
    ((∃ g, build definitions = .ok g) ↔ WellFormed definitions) ∧
      (∀ g, build definitions = .ok g → g.IsTableOf definitions) ∧
      ∀ e, build definitions = .error e → e.OccursIn definitions := by
  refine ⟨⟨fun ⟨g, hg⟩ => (wellFormed_of_build hg).1, fun h => ?_⟩,
    fun g hg => (wellFormed_of_build hg).2, fun e he => occursIn_of_build he⟩
  cases hb : build definitions with
  | ok g => exact ⟨g, rfl⟩
  | error e => exact absurd (occursIn_of_build hb) (h.not_occursIn e)

end Grammar
end LiquidsoapHighlight
