import LiquidsoapHighlight.Proofs.Liquidsoap.Effect
import LiquidsoapHighlight.Proofs.Regex.Repetition
import LiquidsoapHighlight.Proofs.Relevance.Exchange
import LiquidsoapHighlight.Proofs.Scanner.Renaming

/-!
The two kinds of strings. A text with each quote in place of the other is scanned by the same steps,
in the modes for the other kind of string.
-/

namespace LiquidsoapHighlight

/-- The mode for the other kind of string. -/
def Mode.otherQuote : Mode → Mode
  | doubleString => singleString
  | singleString => doubleString
  | doubleInterpolation => singleInterpolation
  | singleInterpolation => doubleInterpolation
  | mode => mode

theorem Mode.otherQuote_involutive : Function.Involutive Mode.otherQuote := by
  intro mode
  cases mode <;> rfl

def Frame.otherQuote (frame : Frame) : Frame := { frame with mode := frame.mode.otherQuote }

namespace Liquidsoap

def Quote.other : Quote → Quote
  | double => single
  | single => double

/-- Each quote in place of the other. -/
def swapQuotes (text : List Char) : List Char := text.map (Equiv.swap '"' '\'')

/-- The other names of characters and modes where the quotes are swapped. -/
def quotes : Renaming := ⟨Equiv.swap '"' '\'', Mode.otherQuote, 0, 0⟩

theorem ruleFor_of_confuses {rule other : Rule} (hpattern : other.pattern = rule.pattern)
    (hp : rule.pattern.confuses '"' '\'' = true) (hkind : other.kind = rule.kind)
    (ht : other.transition = quotes.transition rule.transition) : quotes.RuleFor rule other :=
  ⟨hkind, ht, fun text => hpattern ▸ Pattern.matchCount?_swap hp text⟩

/-- The rules make no difference between the quotes. -/
def confuseQuotes (rules : List Rule) : Bool :=
  rules.all fun rule =>
    quotes.transition rule.transition == rule.transition && rule.pattern.confuses '"' '\''

theorem forall₂_self {rules : List Rule} (h : confuseQuotes rules = true) :
    List.Forall₂ quotes.RuleFor rules rules := by
  refine List.forall₂_same.mpr fun rule hr => ?_
  have hrule := List.all_eq_true.mp h rule hr
  simp only [Bool.and_eq_true, beq_iff_eq] at hrule
  exact ruleFor_of_confuses rfl hrule.2 rfl hrule.1.symm

/-- A rule for a quote does for one quote what the other rule does for the other one. -/
theorem ruleFor_quote (q : Quote) (name name' : String) {t t' : Transition}
    (ht : t' = quotes.transition t) :
    quotes.RuleFor ⟨name, .literal [q.char], .string, t⟩
      ⟨name', .literal [q.other.char], .string, t'⟩ where
  kind := rfl
  transition := ht
  matchCount? text := by
    have hchar : [q.other.char] = [q.char].map (Equiv.swap '"' '\'') := by
      cases q <;> decide
    rw [hchar]
    exact Pattern.matchCount?_literal_swap [q.char] text

/-- What the body of a string is made of. -/
def Quote.bodyClass : Quote → CharClass
  | double => (CharClass.ofRanges [('"', '#'), ('\\', '\\')]).complement
  | single => (CharClass.ofRanges [('#', '#'), ('\'', '\''), ('\\', '\\')]).complement

theorem contains_bodyClass (q : Quote) (c : Char) :
    q.bodyClass.contains c = true ↔ c ≠ q.char ∧ c ≠ '#' ∧ c ≠ '\\' := by
  have hcode : ∀ d : Char, c = d ↔ c.toNat = d.toNat := fun d => Char.toNat_inj.symm
  have hle : ∀ d : Char, (c ≤ d ↔ c.toNat ≤ d.toNat) ∧ (d ≤ c ↔ d.toNat ≤ c.toNat) :=
    fun d => ⟨Iff.rfl, Iff.rfl⟩
  cases q with
  | double | single =>
      simp only [Quote.bodyClass, Quote.char, CharClass.contains_complement, Bool.not_eq_true',
        ← Bool.not_eq_true, CharClass.contains_ofRanges, hcode, hle, List.mem_cons,
        List.not_mem_nil, or_false, exists_eq_or_imp, exists_eq_left, ne_eq, Char.reduceToNat]
      omega

theorem contains_bodyClass_swap (q : Quote) (c : Char) :
    q.other.bodyClass.contains (Equiv.swap '"' '\'' c) = q.bodyClass.contains c := by
  have hquote : Equiv.swap '"' '\'' c = q.other.char ↔ c = q.char := by
    have hchar : q.other.char = Equiv.swap '"' '\'' q.char := by
      cases q <;> decide
    rw [hchar, (Equiv.swap '"' '\'').apply_eq_iff_eq]
  have hsign : Equiv.swap '"' '\'' c = '#' ↔ c = '#' := by
    rw [Equiv.swap_apply_eq_iff]
    rfl
  have hescape : Equiv.swap '"' '\'' c = '\\' ↔ c = '\\' := by
    rw [Equiv.swap_apply_eq_iff]
    rfl
  rw [Bool.eq_iff_iff, contains_bodyClass, contains_bodyClass, Ne, Ne, Ne, hquote, hsign, hescape]

theorem matchCount?_body (q : Quote) (text : List Char) :
    (Pattern.expression q.other.body false).matchCount? (swapQuotes text) =
      (Pattern.expression q.body false).matchCount? text := by
  have hbody : ∀ r : Quote, r.body.regex = .plus (.oneOf r.bodyClass) := by
    intro r
    cases r <;> rfl
  have hcomp : q.other.bodyClass.contains ∘ Equiv.swap '"' '\'' = q.bodyClass.contains :=
    funext (contains_bodyClass_swap q)
  rw [Pattern.matchCount?_run (hbody _), Pattern.matchCount?_run (hbody _), swapQuotes,
    List.takeWhile_map, hcomp]
  simp only [List.map_eq_nil_iff, List.length_map]

theorem forall₂_stringRules (q : Quote) :
    List.Forall₂ quotes.RuleFor (stringRules q) (stringRules q.other) := by
  have hhole : Transition.push q.other.interpolation =
      quotes.transition (.push q.interpolation) := by
    cases q <;> rfl
  refine .cons (ruleFor_of_confuses rfl ?_ rfl rfl) (.cons ?_ (.cons (ruleFor_quote q _ _ rfl)
    (.cons ⟨rfl, rfl, matchCount?_body q⟩ (.cons (ruleFor_of_confuses rfl rfl rfl rfl) .nil))))
  · decide +kernel
  · exact ruleFor_of_confuses rfl rfl rfl hhole

/-- The rules of the top level, with those for the quotes in each other's place. -/
def exchangedRules : List Rule :=
  topLevelRules.take 3 ++
    ⟨"single-quote", .literal [Quote.single.char], .string, .push .singleString⟩ ::
    ⟨"double-quote", .literal [Quote.double.char], .string, .push .doubleString⟩ ::
    topLevelRules.drop 5

theorem firstMatch?_exchangedRules (front : List Rule) (text : List Char) :
    Grammar.firstMatch? (front ++ topLevelRules) text =
      Grammar.firstMatch? (front ++ exchangedRules) text := by
  -- No text begins with both quotes, so that the order of their rules does not matter.
  have hone : (Pattern.literal [Quote.double.char]).matchCount? text = none ∨
      (Pattern.literal [Quote.single.char]).matchCount? text = none := by
    cases text with
    | nil => exact .inl rfl
    | cons c text =>
        by_cases hc : c = Quote.double.char
        · subst hc
          exact .inr rfl
        · left
          simp [Pattern.matchCount?, Pattern.candidate?, Ne.symm hc]
  have hexchange := @Grammar.firstMatch?_exchange
    ⟨"double-quote", .literal [Quote.double.char], .string, .push .doubleString⟩
    ⟨"single-quote", .literal [Quote.single.char], .string, .push .singleString⟩ text hone
    (front ++ topLevelRules.take 3) (topLevelRules.drop 5)
  rwa [List.append_assoc, List.append_assoc] at hexchange

theorem forall₂_exchangedRules : List.Forall₂ quotes.RuleFor topLevelRules exchangedRules := by
  have hopening : List.Forall₂ quotes.RuleFor (topLevelRules.take 3) (topLevelRules.take 3) :=
    forall₂_self (by decide +kernel)
  have hrest : List.Forall₂ quotes.RuleFor (topLevelRules.drop 5) (topLevelRules.drop 5) :=
    forall₂_self (by decide +kernel)
  exact List.rel_append hopening
    (.cons (ruleFor_quote .double _ _ rfl) (.cons (ruleFor_quote .single _ _ rfl) hrest))

/-- The rules of a hole that come before those of the top level. -/
theorem forall₂_holeRules (q : Quote) :
    List.Forall₂ quotes.RuleFor ((interpolationRules q).take 2)
      ((interpolationRules q.other).take 2) := by
  have hclose : Transition.popTo q.other.string = quotes.transition (.popTo q.string) := by
    cases q <;> rfl
  exact .cons (ruleFor_of_confuses rfl rfl rfl hclose)
    (.cons (ruleFor_of_confuses rfl rfl rfl rfl) .nil)

theorem move_of_rules (mode : Mode)
    (h : List.Forall₂ quotes.RuleFor (rules mode) (rules mode.otherQuote)) (text : List Char) :
    grammar.move mode.otherQuote (swapQuotes text) = quotes.move (grammar.move mode text) :=
  Renaming.move_of_forall₂ h rfl rfl

/-- In a mode for expressions, the rules of its own come first. -/
theorem move_of_ownRules {mode : Mode} {front others : List Rule}
    (h : List.Forall₂ quotes.RuleFor front others) (hrules : rules mode = front ++ topLevelRules)
    (hothers : rules mode.otherQuote = others ++ topLevelRules) (text : List Char) :
    grammar.move mode.otherQuote (swapQuotes text) = quotes.move (grammar.move mode text) := by
  refine Renaming.move_of_forall₂ (r := quotes) (List.rel_append h forall₂_exchangedRules)
    (congrArg some hrules) ?_
  change Grammar.firstMatch? (rules mode.otherQuote) _ = _
  rw [hothers]
  exact firstMatch?_exchangedRules others _

theorem move_swapQuotes (mode : Mode) (text : List Char) :
    grammar.move mode.otherQuote (swapQuotes text) = quotes.move (grammar.move mode text) := by
  cases mode with
  | topLevel => exact move_of_ownRules .nil rfl rfl text
  | doubleInterpolation => exact move_of_ownRules (forall₂_holeRules .double) rfl rfl text
  | singleInterpolation => exact move_of_ownRules (forall₂_holeRules .single) rfl rfl text
  | braces =>
      have hown : List.Forall₂ quotes.RuleFor (bracesRules.take 2) (bracesRules.take 2) :=
        forall₂_self (by decide)
      exact move_of_ownRules hown rfl rfl text
  | doubleString => exact move_of_rules .doubleString (forall₂_stringRules .double) text
  | singleString => exact move_of_rules .singleString (forall₂_stringRules .single) text
  | lineComment => exact move_of_rules .lineComment (forall₂_self (by decide +kernel)) text
  | blockComment => exact move_of_rules .blockComment (forall₂_self (by decide +kernel)) text
  | annotationBlock => exact move_of_rules .annotationBlock (forall₂_self (by decide +kernel)) text

theorem quotes_fits : quotes.Fits grammar where
  size := Equiv.apply_swap_eq_self rfl
  injective := Mode.otherQuote_involutive.injective
  move := move_swapQuotes
  encloses mode := by
    cases mode <;> decide +kernel
  topLevel := rfl
  lowest mode _ h := move_ne_push_topLevel mode h

/-- The steps of a text with swapped quotes are those of the text under the other names. -/
theorem steps_swapQuotes (text : List Char) :
    Scanner.steps grammar (swapQuotes text) = (Scanner.steps grammar text).map quotes.step := by
  have hstart : quotes.scanner (.start text) = .start (swapQuotes text) := rfl
  obtain ⟨htrace, hafter⟩ := quotes_fits.trace (Scanner.trace_steps grammar text)
  rw [hstart] at htrace hafter
  symm
  refine htrace.eq_steps ?_
  rw [hafter]
  exact congrArg (List.map quotes.char) (Scanner.rest_steps_eq_nil grammar text)

theorem scan_swapQuotes (text : List Char) :
    Token.scan grammar (swapQuotes text) = (Token.scan grammar text).map quotes.token := by
  rw [Token.scan, Scanner.pieces, steps_swapQuotes, Renaming.map_fst_step, Renaming.coalesce_map]
  rfl

/-- The second step is the first one with the quotes swapped: it has the same place in the text, and
leaves the same stack but for the kind of string. -/
structure StepSwapped (step other : Piece × Scanner) : Prop where
  kind : other.1.token.kind = step.1.token.kind
  start : other.1.token.start = step.1.token.start
  stop : other.1.token.stop = step.1.token.stop
  text : other.1.token.text = swapQuotes step.1.token.text
  construct : other.1.construct = step.1.construct
  offset : other.2.offset = step.2.offset
  frames : other.2.stack.frames = step.2.stack.frames.map Frame.otherQuote
  pushes : other.2.stack.pushes = step.2.stack.pushes

theorem frame_quotes (frame : Frame) : quotes.frame frame = frame.otherQuote := by
  simp [Renaming.frame, quotes, Frame.otherQuote]

theorem stepSwapped_quotes (step : Piece × Scanner) : StepSwapped step (quotes.step step) where
  kind := rfl
  start := rfl
  stop := quotes.stop_token quotes_fits.size step.1.token
  text := rfl
  construct := by
    simp [Renaming.step, Renaming.piece, quotes]
  offset := rfl
  frames := by
    have hframes : (quotes.step step).2.stack.frames = step.2.stack.frames.map quotes.frame := rfl
    rw [hframes]
    exact List.map_congr_left fun frame _ => frame_quotes frame
  pushes := UInt32.add_zero _

theorem keepsSigns_quotes : Relevance.KeepsSigns '"' '\'' := by
  constructor <;> decide +kernel

/-- With its quotes swapped, a text is scanned by the same steps with the two kinds of strings
swapped. Its tokens have the same kinds and places, and its score is the same. -/
theorem swapped_quotes_scan_alike (text : List Char) :
    List.Forall₂ StepSwapped (Scanner.steps grammar text)
        (Scanner.steps grammar (swapQuotes text)) ∧
      List.Forall₂ (fun t u => u.kind = t.kind ∧ u.start = t.start ∧ u.stop = t.stop)
        (Token.scan grammar text) (Token.scan grammar (swapQuotes text)) ∧
      Relevance.score (Token.scan grammar (swapQuotes text)) =
        Relevance.score (Token.scan grammar text) := by
  refine ⟨?_, ?_, ?_⟩
  · rw [steps_swapQuotes, List.forall₂_map_right_iff]
    exact List.forall₂_same.mpr fun step _ => stepSwapped_quotes step
  · rw [scan_swapQuotes, List.forall₂_map_right_iff]
    exact List.forall₂_same.mpr fun t _ => ⟨rfl, rfl, Renaming.stop_token quotes_fits.size t⟩
  · rw [scan_swapQuotes]
    exact Relevance.score_map (Relevance.evidence?_map_swap keepsSigns_quotes) _

end Liquidsoap
end LiquidsoapHighlight
