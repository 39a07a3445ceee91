import Mathlib.Data.List.Infix
import LiquidsoapHighlight.Proofs.Grammar.Outline
import LiquidsoapHighlight.Proofs.Liquidsoap.HoleEnd
import LiquidsoapHighlight.Proofs.Liquidsoap.StackShape

/-!
A text scans in a hole as it does by itself, if it leaves no construct open and closes no brace that
it has not opened. The frames of both scans are the same above the lowest one, in whose place the
other scan has the hole and the braces that are open in it.
-/

namespace LiquidsoapHighlight

def Token.shift (offset : Nat) (t : Token) : Token := { t with start := t.start + offset }

namespace Liquidsoap

def opensBrace (p : Piece) : Bool :=
  p.token.kind == .punctuation && p.token.text == ['{']

def closesBrace (p : Piece) : Bool :=
  p.token.kind == .punctuation && p.token.text == ['}']

/-- The pieces of the steps that are made with a single frame on the stack. -/
def lowestPieces (s : Scanner) : List (Piece × Scanner) → List Piece
  | [] => []
  | (p, t) :: rest =>
    if s.stack.below.isEmpty then p :: lowestPieces t rest else lowestPieces t rest

theorem lowestPieces_append (s : Scanner) (first rest : List (Piece × Scanner)) :
    lowestPieces s (first ++ rest) =
      lowestPieces s first ++ lowestPieces (s.stateAfter first) rest := by
  induction first generalizing s with
  | nil => rfl
  | cons step first ih =>
      obtain ⟨p, t⟩ := step
      rw [List.cons_append, Scanner.stateAfter_cons]
      simp only [lowestPieces, ih]
      split <;> rfl

theorem lowestPieces_cons (s t : Scanner) (p : Piece) (rest : List (Piece × Scanner)) :
    lowestPieces s ((p, t) :: rest) = lowestPieces s [(p, t)] ++ lowestPieces t rest :=
  lowestPieces_append s [(p, t)] rest

/-- A text that leaves only the top level on the stack, and in which each closing brace of the top
level closes one that was opened there. -/
structure SelfContained (text : List Char) : Prop where
  ends : ((Scanner.start text).stateAfter (Scanner.steps grammar text)).stack.modes = [.topLevel]
  nested : ∀ front, front <+: lowestPieces (.start text) (Scanner.steps grammar text) →
    front.countP closesBrace ≤ front.countP opensBrace
  closed : (lowestPieces (.start text) (Scanner.steps grammar text)).countP closesBrace =
    (lowestPieces (.start text) (Scanner.steps grammar text)).countP opensBrace

/-- A string that is nothing but a hole with the text. -/
def inHole (q : Quote) (text : List Char) : List Char :=
  q.char :: (interpolationOpen ++ (text ++ holeEnd q))

/-- The levels in a hole of a string of the top level, with some braces open. -/
def holeLevels (q : Quote) (braces : Nat) : List (Mode × UInt32) :=
  List.replicate braces (.braces, 0) ++ [(q.interpolation, 0), (q.string, 0), (.topLevel, 0)]

theorem holeLevels_ne_nil (q : Quote) (braces : Nat) : holeLevels q braces ≠ [] := by
  simp [holeLevels]

theorem move_openBrace (rest : List Char) :
    grammar.move .topLevel ('{' :: rest) = ⟨.punctuation, 1, .stay⟩ :=
  Grammar.move_of_find? ⟨"punctuation", .oneOf punctuation, .punctuation, .stay⟩ rfl rfl rfl

theorem move_closeBrace (rest : List Char) :
    grammar.move .topLevel ('}' :: rest) = ⟨.punctuation, 1, .stay⟩ :=
  Grammar.move_of_find? ⟨"punctuation", .oneOf punctuation, .punctuation, .stay⟩ rfl rfl rfl

theorem move_openBrace_below {mode : Mode} (h : mode.scansExpressions = true)
    (hne : mode ≠ .topLevel) (rest : List Char) :
    grammar.move mode ('{' :: rest) = ⟨.punctuation, 1, .push .braces⟩ := by
  cases mode with
  | topLevel => exact absurd rfl hne
  | doubleInterpolation | singleInterpolation | braces => rfl
  | _ => cases h

/-- Apart from braces, an expression is scanned by the same rules everywhere. -/
theorem move_of_ne_brace {mode : Mode} (h : mode.scansExpressions = true) {c : Char}
    (hopen : c ≠ '{') (hclose : c ≠ '}') (rest : List Char) :
    grammar.move mode (c :: rest) = grammar.move .topLevel (c :: rest) := by
  have hliteral : ∀ d : Char, c ≠ d → (Pattern.literal [d]).matchCount? (c :: rest) = none := by
    intro d hd
    simp [Pattern.matchCount?, Pattern.candidate?, Ne.symm hd]
  have hrules : Grammar.firstMatch? (rules mode) (c :: rest) =
      Grammar.firstMatch? topLevelRules (c :: rest) := by
    cases mode with
    | topLevel => rfl
    | doubleInterpolation | singleInterpolation =>
        exact (Grammar.firstMatch?_cons_none _ (hliteral '}' hclose)).trans
          (Grammar.firstMatch?_cons_none _ (hliteral '{' hopen))
    | braces =>
        exact (Grammar.firstMatch?_cons_none _ (hliteral '{' hopen)).trans
          (Grammar.firstMatch?_cons_none _ (hliteral '}' hclose))
    | _ => cases h
  obtain ⟨rule, _, count, hf, _⟩ := exists_firstMatch mode (List.cons_ne_nil c rest)
  rw [move_of_firstMatch hf]
  rw [hrules] at hf
  have htop : Grammar.firstMatch? (rules .topLevel) (c :: rest) = some (rule, count) := hf
  exact (move_of_firstMatch htop).symm

theorem move_openString (q : Quote) (rest : List Char) :
    grammar.move .topLevel (q.char :: rest) = ⟨.string, 1, .push q.string⟩ := by
  cases q with
  | double =>
      exact Grammar.move_of_find?
        ⟨"double-quote", .literal [Quote.double.char], .string, .push .doubleString⟩ rfl rfl rfl
  | single =>
      exact Grammar.move_of_find?
        ⟨"single-quote", .literal [Quote.single.char], .string, .push .singleString⟩ rfl rfl rfl

theorem move_openHole (q : Quote) (rest : List Char) :
    grammar.move q.string (interpolationOpen ++ rest) =
      ⟨.interpolation, 2, .push q.interpolation⟩ := by
  cases q with
  | double | single =>
      exact Grammar.move_of_find?
        ⟨"interpolation-open", .literal interpolationOpen, .interpolation, .push _⟩ rfl rfl rfl

theorem move_quote (q : Quote) : grammar.move q.string [q.char] = ⟨.string, 1, .pop⟩ := by
  cases q <;> decide +kernel

theorem Effect.popTo {mode target : Mode} {kind : TokenKind} {taken : List Char}
    (h : Effect mode kind taken (.popTo target)) :
    ∃ q : Quote, mode = q.interpolation ∧ target = q.string := by
  cases h with
  | closeHole q => exact ⟨q, rfl, rfl⟩

theorem WellNested.levels_under_hole {s : ModeStack} {q : Quote} (h : WellNested s.frames)
    (hm : s.top.mode = q.interpolation) :
    (s.below.map Frame.level).head?.map Prod.fst = some q.string := by
  obtain ⟨hframes, hmode⟩ := h.popTo_hole hm
  rw [← hframes]
  exact congrArg some hmode

theorem Effect.of_topLevel {kind : TokenKind} {taken : List Char} {t : Transition}
    (h : Effect .topLevel kind taken t) : t = .stay ∨ ∃ mode, t = .push mode := by
  generalize hm : Mode.topLevel = mode at h
  cases h with
  | content => exact .inl rfl
  | openComment | openLine | openString | openArgsof | openBrace | openHole =>
      exact .inr ⟨_, rfl⟩
  | closeHole q | closeString q => cases q <;> cases hm
  | closeBrace | endLine | nestComment | unnestComment | nestParens | unnestParens => cases hm

/-- In a hole, and in the braces there, an expression is scanned. -/
theorem mode_of_holeLevels {s : ModeStack} {q : Quote} {braces : Nat}
    (h : s.levels = holeLevels q braces) :
    s.top.mode.scansExpressions = true ∧ s.top.mode ≠ .topLevel := by
  cases braces with
  | zero =>
      have hmode : s.top.mode = q.interpolation := congrArg Prod.fst (List.cons.inj h).1
      rw [hmode]
      cases q <;> decide
  | succ braces =>
      have hmode : s.top.mode = .braces := congrArg Prod.fst (List.cons.inj h).1
      rw [hmode]
      decide

theorem brace_of_text {p : Piece} {c : Char} (h : p.token.text.head? = some c) :
    (c ≠ '{' → opensBrace p = false) ∧ (c ≠ '}' → closesBrace p = false) := by
  have hone : ∀ d, c ≠ d → (p.token.text == [d]) = false := by
    intro d hd
    rw [beq_eq_false_iff_ne]
    rintro he
    rw [he] at h
    exact hd (Option.some.inj h).symm
  refine ⟨fun hc => ?_, fun hc => ?_⟩
  · rw [opensBrace, hone '{' hc, Bool.and_false]
  · rw [closesBrace, hone '}' hc, Bool.and_false]

/-- The second state is in the hole where the first one is in the text by itself. -/
structure InHole (q : Quote) (braces : Nat) (s t : Scanner) : Prop where
  rest : t.rest = s.rest ++ holeEnd q
  offset : t.offset = s.offset + 3
  levels : ∃ above, s.stack.levels = above ++ [(.topLevel, 0)] ∧
    t.stack.levels = above ++ holeLevels q braces

/-- The step of a text has its counterpart in the hole. -/
def HasCounterpart (q : Quote) (braces : Nat) (t : Scanner) (p : Piece) (s' : Scanner) : Prop :=
  ∃ p' t', t.next? grammar = some (p', t') ∧ p'.token = p.token.shift 3 ∧ InHole q braces s' t'

theorem eq_nil_of_below {s : ModeStack} {above : List (Mode × UInt32)}
    (h : s.levels = above ++ [(.topLevel, 0)]) (hbelow : s.below = []) : above = [] := by
  have hlength := congrArg List.length h
  simpa [ModeStack.levels, ModeStack.frames, hbelow] using hlength

namespace InHole
variable {q : Quote} {braces : Nat} {s t s' : Scanner} {p : Piece}

/-- Moves that take as much of the same kind are counterparts, if the stacks after them are. -/
theorem hasCounterpart (h : InHole q braces s t) (hn : s.next? grammar = some (p, s'))
    {move move' : Move} (hmove : grammar.move s.stack.top.mode s.rest = move)
    (hmove' : grammar.move t.stack.top.mode (s.rest ++ holeEnd q) = move')
    (hkind : move'.kind = move.kind) (hcount : move'.count = move.count) {after : Nat}
    (hlevels : ∃ above, (s.stack.apply move.transition).levels = above ++ [(.topLevel, 0)] ∧
      (t.stack.apply move'.transition).levels = above ++ holeLevels q after) :
    HasCounterpart q after t p s' := by
  obtain ⟨hne, _, rfl, rfl, rfl⟩ := Scanner.move_of_next? hn
  have hle := (grammar.move_count_bounds s.stack.top.mode hne).2
  rw [hmove, ← hcount] at hle
  have hne' : t.rest ≠ [] := by
    rw [h.rest]
    exact List.append_ne_nil_of_left_ne_nil hne _
  have hnext := Scanner.next?_of_move_append h.rest hne' (h.rest.symm ▸ hmove') hle
  rw [hkind, hcount] at hnext
  refine ⟨_, _, hnext, ?_, ?_, ?_, ?_⟩
  · simp only [hmove, h.offset, Token.shift]
  · simp only [hmove]
  · simp only [hmove, h.offset, Token.stop, Token.length]
    omega
  · simp only [hmove]
    exact hlevels

/-- Above the lowest frame the same step is made in the hole, unless it is one inside of a construct
that stays open at the end of the text. -/
theorem next_above (h : InHole q braces s t) (hs : WellNested s.stack.frames)
    (hn : s.next? grammar = some (p, s')) (hbelow : s.stack.below ≠ [])
    (hend : s'.rest = [] → s'.stack.below = []) : HasCounterpart q braces t p s' := by
  obtain ⟨above, hlevels, hlevels'⟩ := h.levels
  cases above with
  | nil =>
      obtain ⟨_, hnil⟩ := List.cons.inj hlevels
      exact absurd (List.map_eq_nil_iff.mp hnil) hbelow
  | cons top above =>
      obtain ⟨htop, hrest⟩ := List.cons.inj hlevels
      obtain ⟨htop', _⟩ := List.cons.inj hlevels'
      have hmode : t.stack.top.mode = s.stack.top.mode :=
        congrArg Prod.fst (htop'.trans htop.symm)
      obtain ⟨hne, move, hmove, _, rfl⟩ := Scanner.move_of_next? hn
      have heffect := effect_move s.stack.top.mode hne
      rw [← hmove] at heffect
      have hsame : grammar.move t.stack.top.mode (s.rest ++ holeEnd q) = move := by
        rw [hmode, hmove]
        refine move_append q hne (Classical.byContradiction fun hnot => hbelow ?_)
        rw [← hmove] at hnot
        simp only [not_or, not_lt, not_not] at hnot
        obtain ⟨_, hall, hstay⟩ := hnot
        have hlast := hend (List.drop_eq_nil_of_le hall)
        rwa [hstay] at hlast
      have hpop : ∀ mode, move.transition = .popTo mode →
          top.1 ≠ mode ∧ above.head?.map Prod.fst = some mode := by
        intro mode ht
        rw [ht] at heffect
        obtain ⟨r, hhole, rfl⟩ := heffect.popTo
        have hstring := hs.levels_under_hole hhole
        rw [← htop]
        refine ⟨?_, ?_⟩
        · change s.stack.top.mode ≠ r.string
          rw [hhole]
          exact r.string_ne_interpolation r
        · rw [hrest] at hstring
          cases above with
          | nil => cases r <;> cases hstring
          | cons next above => exact hstring
      refine h.hasCounterpart hn hmove.symm hsame rfl rfl
        ⟨ModeStack.relevel move.transition top above, ?_, ?_⟩
      · exact ModeStack.levels_apply hlevels (by simp) hpop
      · exact ModeStack.levels_apply hlevels' (holeLevels_ne_nil q braces) hpop

variable {c : Char} {rest : List Char}

theorem next_openBrace (h : InHole q braces s t) (hn : s.next? grammar = some (p, s'))
    (hlevels : s.stack.levels = [(.topLevel, 0)]) (hlevels' : t.stack.levels = holeLevels q braces)
    (hr : s.rest = '{' :: rest) : HasCounterpart q (braces + 1) t p s' := by
  obtain ⟨hexpr, hlower⟩ := mode_of_holeLevels hlevels'
  have hmode : s.stack.top.mode = .topLevel := congrArg Prod.fst (List.cons.inj hlevels).1
  have hmove : grammar.move s.stack.top.mode s.rest = ⟨.punctuation, 1, .stay⟩ := by
    rw [hmode, hr, move_openBrace]
  have hmove' : grammar.move t.stack.top.mode (s.rest ++ holeEnd q) =
      ⟨.punctuation, 1, .push .braces⟩ := by
    rw [hr, List.cons_append, move_openBrace_below hexpr hlower]
  have hpush : (t.stack.push .braces).levels = holeLevels q (braces + 1) :=
    congrArg (List.cons (Mode.braces, 0)) hlevels'
  exact h.hasCounterpart hn hmove hmove' rfl rfl ⟨[], hlevels, hpush⟩

theorem next_closeBrace (h : InHole q (braces + 1) s t) (hn : s.next? grammar = some (p, s'))
    (hlevels : s.stack.levels = [(.topLevel, 0)])
    (hlevels' : t.stack.levels = holeLevels q (braces + 1)) (hr : s.rest = '}' :: rest) :
    HasCounterpart q braces t p s' := by
  have hmode : s.stack.top.mode = .topLevel := congrArg Prod.fst (List.cons.inj hlevels).1
  have hmode' : t.stack.top.mode = .braces := congrArg Prod.fst (List.cons.inj hlevels').1
  have hmove : grammar.move s.stack.top.mode s.rest = ⟨.punctuation, 1, .stay⟩ := by
    rw [hmode, hr, move_closeBrace]
  have hmove' : grammar.move t.stack.top.mode (s.rest ++ holeEnd q) =
      ⟨.punctuation, 1, .pop⟩ := by
    rw [hmode', hr]
    rfl
  exact h.hasCounterpart hn hmove hmove' rfl rfl
    ⟨[], hlevels, ModeStack.levels_pop hlevels' (holeLevels_ne_nil q braces)⟩

theorem next_noBrace (h : InHole q braces s t) (hn : s.next? grammar = some (p, s'))
    (hlevels : s.stack.levels = [(.topLevel, 0)]) (hlevels' : t.stack.levels = holeLevels q braces)
    (hr : s.rest = c :: rest) (hopen : c ≠ '{') (hclose : c ≠ '}') :
    HasCounterpart q braces t p s' := by
  obtain ⟨hexpr, _⟩ := mode_of_holeLevels hlevels'
  have hmode : s.stack.top.mode = .topLevel := congrArg Prod.fst (List.cons.inj hlevels).1
  have hne : s.rest ≠ [] := by
    rw [hr]
    exact List.cons_ne_nil c rest
  have hsame : grammar.move t.stack.top.mode (s.rest ++ holeEnd q) =
      grammar.move .topLevel s.rest := by
    rw [← move_append q hne (.inl rfl), hr, List.cons_append,
      move_of_ne_brace hexpr hopen hclose]
  refine h.hasCounterpart hn (by rw [hmode]) hsame rfl rfl ?_
  cases (effect_move .topLevel hne).of_topLevel with
  | inl hstay =>
      rw [hstay]
      exact ⟨[], hlevels, hlevels'⟩
  | inr hpush =>
      obtain ⟨mode, hpush⟩ := hpush
      rw [hpush]
      exact ⟨[(mode, 0)], congrArg (List.cons _) hlevels, congrArg (List.cons _) hlevels'⟩

/-- On the lowest frame the braces of the text are counted in the hole. -/
theorem next_lowest (h : InHole q braces s t) (hn : s.next? grammar = some (p, s'))
    (hbelow : s.stack.below = [])
    (hclose : [p].countP closesBrace ≤ braces + [p].countP opensBrace) :
    ∃ after, after + [p].countP closesBrace = braces + [p].countP opensBrace ∧
      HasCounterpart q after t p s' := by
  obtain ⟨above, hlevels, hlevels'⟩ := h.levels
  obtain rfl := eq_nil_of_below hlevels hbelow
  have hmode : s.stack.top.mode = .topLevel := congrArg Prod.fst (List.cons.inj hlevels).1
  obtain ⟨hne, move, hmove, hp, _⟩ := Scanner.move_of_next? hn
  obtain ⟨c, rest, hr⟩ := List.exists_cons_of_ne_nil hne
  rw [hmode, hr] at hmove
  by_cases hopen : c = '{'
  · subst hopen
    refine ⟨braces + 1, ?_, h.next_openBrace hn hlevels hlevels' hr⟩
    rw [hp, hmove, move_openBrace, hr]
    rfl
  by_cases hcloses : c = '}'
  · subst hcloses
    have hcounts : [p].countP closesBrace = 1 ∧ [p].countP opensBrace = 0 := by
      rw [hp, hmove, move_closeBrace, hr]
      exact ⟨rfl, rfl⟩
    rw [hcounts.1, hcounts.2] at hclose ⊢
    cases braces with
    | zero => exact absurd hclose (Nat.not_succ_le_zero 0)
    | succ braces => exact ⟨braces, rfl, h.next_closeBrace hn hlevels hlevels' hr⟩
  · have hhead : p.token.text.head? = some c := by
      obtain ⟨htaken, hsplit, _⟩ := Scanner.next?_takes hn
      obtain ⟨d, more, hd⟩ := List.exists_cons_of_ne_nil htaken
      rw [hd, hr] at hsplit
      rw [hd, (List.cons.inj hsplit).1]
      rfl
    obtain ⟨hnotOpen, hnotClose⟩ := brace_of_text hhead
    refine ⟨braces, ?_, h.next_noBrace hn hlevels hlevels' hr hopen hcloses⟩
    simp [hnotOpen hopen, hnotClose hcloses]

theorem next (h : InHole q braces s t) (hs : WellNested s.stack.frames)
    (hn : s.next? grammar = some (p, s')) (hend : s'.rest = [] → s'.stack.below = [])
    (hclose : (lowestPieces s [(p, s')]).countP closesBrace ≤
      braces + (lowestPieces s [(p, s')]).countP opensBrace) :
    ∃ after, after + (lowestPieces s [(p, s')]).countP closesBrace =
        braces + (lowestPieces s [(p, s')]).countP opensBrace ∧
      HasCounterpart q after t p s' := by
  by_cases hbelow : s.stack.below = []
  · simp only [lowestPieces, hbelow, List.isEmpty_nil, if_true] at hclose ⊢
    exact h.next_lowest hn hbelow hclose
  · simp only [lowestPieces, List.isEmpty_iff, hbelow, if_false] at hclose ⊢
    exact ⟨braces, rfl, h.next_above hs hn hbelow hend⟩

theorem below_ne_nil (h : InHole q braces s t) : t.stack.below ≠ [] := by
  obtain ⟨above, _, hlevels⟩ := h.levels
  apply ModeStack.below_ne_nil
  rw [hlevels, holeLevels]
  simp only [List.length_append, List.length_cons]
  omega

/-- The steps of a text that leaves no construct open have their counterparts in the hole. -/
theorem run {steps : List (Piece × Scanner)} (ht : Scanner.Trace grammar s steps)
    (h : InHole q braces s t) (hs : WellNested s.stack.frames)
    (hbelow : (s.stateAfter steps).stack.below = [])
    (hnested : ∀ front, front <+: lowestPieces s steps →
      front.countP closesBrace ≤ braces + front.countP opensBrace)
    (hclosed : (lowestPieces s steps).countP closesBrace =
      braces + (lowestPieces s steps).countP opensBrace) :
    ∃ steps', Scanner.Trace grammar t steps' ∧
      steps'.map (fun step => step.1.token) = steps.map (fun step => step.1.token.shift 3) ∧
      InHole q 0 (s.stateAfter steps) (t.stateAfter steps') ∧ lowestPieces t steps' = [] := by
  induction ht generalizing t braces with
  | done s =>
      obtain rfl : 0 = braces := hclosed
      exact ⟨[], .done t, rfl, h, rfl⟩
  | @step s s' p steps hn ht ih =>
      rw [Scanner.stateAfter_cons] at hbelow
      rw [lowestPieces_cons] at hnested hclosed
      have hend : s'.rest = [] → s'.stack.below = [] := by
        intro hrest
        cases ht with
        | done => exact hbelow
        | step hnext =>
            rw [Scanner.next?_eq_none.mpr hrest] at hnext
            cases hnext
      obtain ⟨after, hafter, p', t', hn', htoken, h'⟩ :=
        h.next hs hn hend (hnested _ (List.prefix_append _ _))
      have hnested' : ∀ front, front <+: lowestPieces s' steps →
          front.countP closesBrace ≤ after + front.countP opensBrace := by
        intro front hfront
        have hle := hnested _ ((List.prefix_append_right_inj _).mpr hfront)
        rw [List.countP_append, List.countP_append] at hle
        omega
      have hclosed' : (lowestPieces s' steps).countP closesBrace =
          after + (lowestPieces s' steps).countP opensBrace := by
        rw [List.countP_append, List.countP_append] at hclosed
        omega
      obtain ⟨steps', ht', htokens, hin, hnone⟩ :=
        ih h' (wellNested_next hs hn) hbelow hnested' hclosed'
      refine ⟨(p', t') :: steps', .step hn' ht', ?_, ?_, ?_⟩
      · rw [List.map_cons, List.map_cons, htoken, htokens]
      · rw [Scanner.stateAfter_cons, Scanner.stateAfter_cons]
        exact hin
      · rw [lowestPieces, hnone, if_neg (by simpa using h.below_ne_nil)]

/-- At the end of the text the hole is closed, and then its string. -/
theorem close (h : InHole q 0 s t) (hrest : s.rest = []) (hbelow : s.stack.below = []) :
    ∃ closing, Scanner.Trace grammar t closing ∧
      closing.map (fun step => step.1.token) =
        [⟨.interpolation, t.offset, interpolationClose⟩, ⟨.string, t.offset + 1, [q.char]⟩] ∧
      (t.stateAfter closing).rest = [] ∧
      (t.stateAfter closing).stack.levels = [(.topLevel, 0)] ∧ lowestPieces t closing = [] := by
  obtain ⟨above, hlevels, hlevels'⟩ := h.levels
  obtain rfl := eq_nil_of_below hlevels hbelow
  have hmode : t.stack.top.mode = q.interpolation := congrArg Prod.fst (List.cons.inj hlevels').1
  have hend : t.rest = interpolationClose ++ [q.char] := by
    rw [h.rest, hrest]
    rfl
  have hmove : grammar.move t.stack.top.mode t.rest = ⟨.interpolation, 1, .popTo q.string⟩ := by
    rw [hmode, hend]
    cases q <;> rfl
  have hhole := Scanner.next?_eq_some hend (List.cons_ne_nil _ _) hmove
  have hsplit : t.stack.levels =
      (q.interpolation, 0) :: [(q.string, 0)] ++ [(Mode.topLevel, 0)] := hlevels'
  have hpop : (t.stack.popTo q.string).levels = [(q.string, 0), (.topLevel, 0)] := by
    refine ModeStack.levels_apply (t := .popTo q.string) hsplit (List.cons_ne_nil _ _) ?_
    intro mode ht
    obtain rfl := Transition.popTo.inj ht
    exact ⟨q.string_ne_interpolation q, rfl⟩
  have hstring : (t.stack.popTo q.string).top.mode = q.string :=
    congrArg Prod.fst (List.cons.inj hpop).1
  have hquote := Scanner.next?_eq_some (g := grammar)
    (s := ⟨t.offset + Text.byteLength interpolationClose, [q.char], t.stack.popTo q.string⟩)
    (List.append_nil [q.char]).symm (List.cons_ne_nil _ _) (hstring ▸ move_quote q)
  have hlast : (t.stack.popTo q.string).pop.levels = [(.topLevel, 0)] :=
    ModeStack.levels_pop hpop (by decide)
  have hbelow : (t.stack.popTo q.string).below ≠ [] :=
    ModeStack.below_ne_nil (by rw [hpop]; exact Nat.one_lt_two)
  refine ⟨_, .step hhole (.step hquote (.done _)), rfl, rfl, hlast, ?_⟩
  simp [lowestPieces, h.below_ne_nil, hbelow, ModeStack.apply]

end InHole

/-- A string that is opened, and the hole right after its quote. -/
theorem open_hole (q : Quote) (text : List Char) :
    ∃ opening, Scanner.Trace grammar (.start (inHole q text)) opening ∧
      opening.map (fun step => step.1.token) =
        [⟨.string, 0, [q.char]⟩, ⟨.interpolation, 1, interpolationOpen⟩] ∧
      InHole q 0 (.start text) ((Scanner.start (inHole q text)).stateAfter opening) ∧
      (lowestPieces (.start (inHole q text)) opening).map Piece.token =
        [⟨.string, 0, [q.char]⟩] := by
  have hrest : (Scanner.start (inHole q text)).rest =
      [q.char] ++ (interpolationOpen ++ (text ++ holeEnd q)) := rfl
  have hquote := Scanner.next?_eq_some hrest (List.cons_ne_nil _ _) (move_openString q _)
  have hhole := Scanner.next?_eq_some (g := grammar)
    (s := ⟨0 + Text.byteLength [q.char], interpolationOpen ++ (text ++ holeEnd q),
      ModeStack.initial.push q.string⟩)
    rfl (List.cons_ne_nil _ _) (move_openHole q _)
  refine ⟨_, .step hquote (.step hhole (.done _)), ?_, ⟨rfl, ?_, [], rfl, rfl⟩, rfl⟩
  · cases q <;> rfl
  · cases q <;> rfl

theorem below_of_modes {s : ModeStack} (h : s.modes = [.topLevel]) : s.below = [] := by
  have hlength := congrArg List.length h
  simpa [ModeStack.modes, ModeStack.frames] using hlength

theorem modes_of_levels {s : ModeStack} (h : s.levels = [(.topLevel, 0)]) :
    s.modes = [.topLevel] := by
  have hmodes : s.frames.map Frame.mode = s.levels.map Prod.fst := by
    rw [ModeStack.levels, List.map_map]
    rfl
  rw [ModeStack.modes, hmodes, h]
  rfl

/-- In a hole a text gives the same tokens as by itself. The string with the hole is a text of the
same sort, and can stand in a hole in turn. -/
theorem hole_scans_like_topLevel (q : Quote) {text : List Char} (h : SelfContained text) :
    (Scanner.pieces grammar (inHole q text)).map Piece.token =
      [⟨.string, 0, [q.char]⟩, ⟨.interpolation, 1, interpolationOpen⟩] ++
        (Scanner.pieces grammar text).map (fun p => p.token.shift 3) ++
        [⟨.interpolation, Text.byteLength text + 3, interpolationClose⟩,
          ⟨.string, Text.byteLength text + 4, [q.char]⟩] ∧
      SelfContained (inHole q text) := by
  have htext := Scanner.trace_steps grammar text
  have hrest := Scanner.rest_steps_eq_nil grammar text
  have hbelow := below_of_modes h.ends
  have hoffset : ((Scanner.start text).stateAfter (Scanner.steps grammar text)).offset =
      Text.byteLength text := by
    have htaken := htext.rest_eq
    rw [hrest, List.append_nil] at htaken
    rw [htext.offset_eq, ← htaken]
    exact Nat.zero_add _
  obtain ⟨opening, htopen, htokens, hopened, hlowest⟩ := open_hole q text
  obtain ⟨inner, htinner, hinner, hin, hnone⟩ := hopened.run htext (wellNested_start text) hbelow
    (by simpa using h.nested) (by simpa using h.closed)
  obtain ⟨closing, htclose, hclosing, hend, hlevels, hnoneClosing⟩ := hin.close hrest hbelow
  have hall : Scanner.steps grammar (inHole q text) = opening ++ (inner ++ closing) := by
    symm
    refine Scanner.Trace.eq_steps ?_ ?_
    · exact Scanner.trace_append.mpr ⟨htopen, Scanner.trace_append.mpr ⟨htinner, htclose⟩⟩
    · rw [Scanner.stateAfter_append, Scanner.stateAfter_append]
      exact hend
  have hlowestAll : lowestPieces (.start (inHole q text)) (opening ++ (inner ++ closing)) =
      lowestPieces (.start (inHole q text)) opening := by
    rw [lowestPieces_append, lowestPieces_append, hnone, hnoneClosing, List.append_nil,
      List.append_nil]
  obtain ⟨p, hp, hquote⟩ := List.map_eq_singleton_iff.mp hlowest
  have hcounts : (lowestPieces (.start (inHole q text)) opening).countP closesBrace = 0 ∧
      (lowestPieces (.start (inHole q text)) opening).countP opensBrace = 0 := by
    simp [hp, opensBrace, closesBrace, hquote]
  refine ⟨?_, ?_, ?_, ?_⟩
  · simp only [Scanner.pieces, List.map_map, Function.comp_def, hall, List.map_append, htokens,
      hinner, hclosing, hin.offset, hoffset, List.append_assoc]
  · rw [hall, Scanner.stateAfter_append, Scanner.stateAfter_append]
    exact modes_of_levels hlevels
  · rw [hall, hlowestAll]
    intro front hfront
    have hle := hfront.sublist.countP_le (p := closesBrace)
    omega
  · rw [hall, hlowestAll, hcounts.1, hcounts.2]

/-- A call with a record. -/
def recordCall : List Char := "f(\x7bx = 1\x7d)".toList

/-- The braces of the record are closed, so that the call can stand in the hole of a string, and
that string in the hole of another one. -/
theorem recordCall_in_hole :
    SelfContained recordCall ∧ SelfContained (inHole .double (inHole .single recordCall)) := by
  have hnested : ∀ front ∈ (lowestPieces (.start recordCall)
      (Scanner.steps grammar recordCall)).inits,
        front.countP closesBrace ≤ front.countP opensBrace := by
    decide +kernel
  have hrecord : SelfContained recordCall :=
    ⟨by decide +kernel, fun front hfront => hnested front ((List.mem_inits _ _).mpr hfront),
      by decide +kernel⟩
  exact ⟨hrecord, (hole_scans_like_topLevel .double
    (hole_scans_like_topLevel .single hrecord).2).2⟩

end Liquidsoap
end LiquidsoapHighlight
