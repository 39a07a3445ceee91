import LiquidsoapHighlight.Proofs.Liquidsoap.HoleScan
import LiquidsoapHighlight.Proofs.Liquidsoap.Quotes
import LiquidsoapHighlight.Proofs.Token.Placed

/-!
The segments of a string. A segment goes up to the first quote or hole that no backslash stands
before, and is scanned as tokens of the string that leave the stack as it is. A text in which
quotes, backslashes and number signs are escaped is a segment as a whole.
-/

namespace LiquidsoapHighlight
namespace Liquidsoap
namespace Quote

/-- The closing quote, or the sign that opens a hole, starts at the text. -/
def delimits (q : Quote) (text : List Char) : Bool :=
  [q.char].isPrefixOf text || interpolationOpen.isPrefixOf text

/-- The number of characters before the first sign that ends a segment. A backslash is passed over
together with the character after it. -/
def segmentLength (q : Quote) : List Char → Nat
  | [] => 0
  | '\\' :: _ :: rest => q.segmentLength rest + 2
  | c :: rest => if q.delimits (c :: rest) then 0 else q.segmentLength rest + 1

/-- The text with a backslash before each character that has a meaning in a string. -/
def escaped (q : Quote) (text : List Char) : List Char :=
  text.flatMap fun c => if c = q.char ∨ c = '\\' ∨ c = '#' then ['\\', c] else [c]

theorem delimits_iff (q : Quote) (c : Char) (rest : List Char) :
    q.delimits (c :: rest) = true ↔ c = q.char ∨ c = '#' ∧ rest.head? = some '{' := by
  have hopen : ['{'] <+: rest ↔ rest.head? = some '{' := by
    cases rest with
    | nil => simp
    | cons d rest => simp [List.cons_prefix_cons, eq_comm]
  have hsign : interpolationOpen = ['#', '{'] := rfl
  rw [delimits, hsign, Bool.or_eq_true, List.isPrefixOf_iff_prefix, List.isPrefixOf_iff_prefix,
    List.cons_prefix_cons, List.cons_prefix_cons, hopen, @eq_comm _ c, @eq_comm _ c,
    and_iff_left List.nil_prefix]

theorem segmentLength_delimits {q : Quote} {text : List Char} (h : q.delimits text = true) :
    q.segmentLength text = 0 := by
  unfold segmentLength
  split
  · rfl
  · rw [delimits_iff] at h
    cases q <;> simp [char] at h
  · exact if_pos h

/-- A character that is neither escaped nor a sign belongs to the segment. -/
theorem segmentLength_cons {q : Quote} {c : Char} {rest : List Char} (hpair : c = '\\' → rest = [])
    (h : q.delimits (c :: rest) = false) :
    q.segmentLength (c :: rest) = q.segmentLength rest + 1 := by
  rw [segmentLength, h]
  · rfl
  · rintro d more rfl rfl
    exact List.cons_ne_nil _ _ (hpair rfl)

/-- The characters of the body belong to the segment. -/
theorem segmentLength_body (q : Quote) {body : List Char}
    (h : ∀ c ∈ body, q.bodyClass.contains c = true) (rest : List Char) :
    q.segmentLength (body ++ rest) = q.segmentLength rest + body.length := by
  induction body with
  | nil => rfl
  | cons c body ih =>
      obtain ⟨hc, hbody⟩ := List.forall_mem_cons.mp h
      obtain ⟨hquote, hsign, hescape⟩ := (contains_bodyClass q c).mp hc
      have hnot : q.delimits (c :: (body ++ rest)) = false := by
        rw [← Bool.not_eq_true, delimits_iff]
        exact fun hd => hd.elim hquote fun hopen => hsign hopen.1
      rw [List.cons_append, segmentLength_cons (fun he => absurd he hescape) hnot, ih hbody,
        List.length_cons, Nat.add_assoc]

/-- An escaped text is a segment up to the quote after it. -/
theorem segmentLength_escaped (q : Quote) (text rest : List Char) :
    q.segmentLength (q.escaped text ++ q.char :: rest) = (q.escaped text).length := by
  induction text with
  | nil =>
      refine segmentLength_delimits ?_
      exact (delimits_iff q q.char rest).mpr (.inl rfl)
  | cons c text ih =>
      rw [escaped, List.flatMap_cons, ← escaped, List.append_assoc, List.length_append]
      split
      · exact (congrArg (· + 2) ih).trans (Nat.add_comm _ _)
      · next hc =>
          simp only [not_or] at hc
          have hbody := (contains_bodyClass q c).mpr ⟨hc.1, hc.2.2, hc.2.1⟩
          rw [segmentLength_body q (by simpa using hbody), ih, Nat.add_comm]

end Quote

theorem rules_string (q : Quote) : rules q.string = stringRules q := by
  cases q <;> rfl

theorem move_closeQuote (q : Quote) (rest : List Char) :
    grammar.move q.string (q.char :: rest) = ⟨.string, 1, .pop⟩ := by
  cases q with
  | double | single =>
      exact Grammar.move_of_find? ⟨"close", .literal [_], .string, .pop⟩ rfl rfl rfl

theorem move_escape (q : Quote) (c : Char) (rest : List Char) :
    grammar.move q.string ('\\' :: c :: rest) = ⟨.string, 2, .stay⟩ := by
  refine @move_of_firstMatch _ _ ⟨"escape", .expression escape false, .string, .stay⟩ _ ?_
  rw [rules_string]
  exact Grammar.firstMatch?_cons_some _ (matchCount?_escape c rest)

/-- Where no sign stands and nothing is escaped, the body is taken, or a single character. -/
theorem firstMatch?_plain {q : Quote} {c : Char} {rest : List Char} (hpair : c = '\\' → rest = [])
    (h : q.delimits (c :: rest) = false) :
    Grammar.firstMatch? (rules q.string) (c :: rest) = Grammar.firstMatch?
      [⟨"body", .expression q.body false, .string, .stay⟩, ⟨"other", .anyChar, .string, .stay⟩]
      (c :: rest) := by
  have hescape : (Pattern.expression escape false).matchCount? (c :: rest) = none := by
    by_cases hc : c = '\\'
    · obtain rfl := hpair hc
      rw [hc]
      rfl
    · exact matchCount?_escape_of_ne hc rest
  rw [Quote.delimits, Bool.or_eq_false_iff] at h
  have hopen : (Pattern.literal interpolationOpen).matchCount? (c :: rest) = none := by
    simp [Pattern.matchCount?, Pattern.candidate?, h.2]
  have hclose : (Pattern.literal [q.char]).matchCount? (c :: rest) = none := by
    simp only [Pattern.matchCount?, Pattern.candidate?, h.1]
    rfl
  rw [rules_string, stringRules, Grammar.firstMatch?_cons_none _ hescape,
    Grammar.firstMatch?_cons_none _ hopen, Grammar.firstMatch?_cons_none _ hclose]

theorem move_plain {q : Quote} {c : Char} {rest : List Char} (hpair : c = '\\' → rest = [])
    (h : q.delimits (c :: rest) = false) :
    ∃ count, grammar.move q.string (c :: rest) = ⟨.string, count, .stay⟩ ∧
      q.segmentLength (c :: rest) = q.segmentLength ((c :: rest).drop count) + count := by
  have hbody : (Pattern.expression q.body false).matchCount? (c :: rest) =
      if (c :: rest).takeWhile q.bodyClass.contains = [] then none
      else some ((c :: rest).takeWhile q.bodyClass.contains).length := by
    cases q <;> exact Pattern.matchCount?_run rfl _
  have hrules := firstMatch?_plain hpair h
  by_cases hempty : (c :: rest).takeWhile q.bodyClass.contains = []
  · rw [if_pos hempty] at hbody
    rw [Grammar.firstMatch?_cons_none _ hbody, @Grammar.firstMatch?_cons_some _ _ 1 _ rfl]
      at hrules
    exact ⟨1, move_of_firstMatch hrules, Quote.segmentLength_cons hpair h⟩
  · rw [if_neg hempty] at hbody
    rw [Grammar.firstMatch?_cons_some _ hbody] at hrules
    refine ⟨_, move_of_firstMatch hrules, ?_⟩
    have hsplit := List.takeWhile_append_dropWhile (p := q.bodyClass.contains) (l := c :: rest)
    have hdrop := @List.drop_left _ ((c :: rest).takeWhile q.bodyClass.contains)
      ((c :: rest).dropWhile q.bodyClass.contains)
    rw [hsplit] at hdrop
    rw [hdrop, ← q.segmentLength_body fun d hd => List.mem_takeWhile_imp hd, hsplit]

/-- A step before the end of a segment leaves the string open. -/
theorem move_in_segment {q : Quote} {text : List Char} (hne : text ≠ [])
    (h : q.delimits text = false) :
    ∃ count, grammar.move q.string text = ⟨.string, count, .stay⟩ ∧
      q.segmentLength text = q.segmentLength (text.drop count) + count := by
  obtain ⟨c, rest, rfl⟩ := List.exists_cons_of_ne_nil hne
  by_cases hpair : c = '\\' → rest = []
  · exact move_plain hpair h
  · rw [Classical.not_imp] at hpair
    obtain ⟨rfl, hrest⟩ := hpair
    obtain ⟨d, rest, rfl⟩ := List.exists_cons_of_ne_nil hrest
    exact ⟨2, move_escape q d rest, rfl⟩

/-- The step closes the string on top of the stack, or opens a hole in it. -/
inductive EndsSegment (q : Quote) (stack : ModeStack) (step : Piece × Scanner) : Prop where
  | close : step.1.token.kind = .string → step.1.token.text = [q.char] →
      step.2.stack = stack.pop → (stack.below ≠ [] → step.2.stack.frames = stack.below) →
      EndsSegment q stack step
  | hole : step.1.token.kind = .interpolation → step.1.token.text = interpolationOpen →
      step.2.stack = stack.push q.interpolation → EndsSegment q stack step

/-- Of the steps from a state in a string on, the first ones are those of the segment that the text
begins with, and the others come after it. -/
structure IsSegment (q : Quote) (u : Scanner) (inner back : List (Piece × Scanner)) : Prop where
  pieces : ∀ step ∈ inner, step.1.token.kind = .string ∧ step.2.stack = u.stack
  placed : Token.Placed u.offset (inner.map fun step => step.1.token)
  taken : Scanner.taken inner = u.rest.take (q.segmentLength u.rest)
  ends : ∀ step ∈ back.head?, EndsSegment q u.stack step
  exhausts : back = [] → q.segmentLength u.rest = u.rest.length

section
variable {q : Quote} {u v : Scanner} {p : Piece} {steps inner back : List (Piece × Scanner)}

theorem IsSegment.cons (h : IsSegment q v inner back) (hn : u.next? grammar = some (p, v))
    (hk : p.token.kind = .string) (hs : v.stack = u.stack)
    (hl : q.segmentLength u.rest = q.segmentLength v.rest + p.token.text.length) :
    IsSegment q u ((p, v) :: inner) back := by
  obtain ⟨hne, hr, hstart, hoffset⟩ := Scanner.next?_takes hn
  refine ⟨List.forall_mem_cons.mpr ⟨⟨hk, hs⟩, hs ▸ h.pieces⟩, ⟨hstart, hne, hoffset ▸ h.placed⟩,
    ?_, hs ▸ h.ends, fun hnil => ?_⟩
  · rw [hl, hr, Nat.add_comm, List.take_length_add_append, ← h.taken]
    rfl
  · rw [hl, hr, List.length_append, h.exhausts hnil, Nat.add_comm]

theorem endsSegment_next (hu : u.stack.top.mode = q.string) (hn : u.next? grammar = some (p, v))
    (h : q.delimits u.rest = true) : EndsSegment q u.stack (p, v) := by
  obtain ⟨hne, move, rfl, rfl, rfl⟩ := Scanner.move_of_next? hn
  obtain ⟨c, rest, hr⟩ := List.exists_cons_of_ne_nil hne
  rw [hr, Quote.delimits_iff] at h
  obtain rfl | ⟨rfl, hhole⟩ := h
  · rw [hu, hr, move_closeQuote]
    exact .close rfl rfl rfl ModeStack.frames_pop
  · obtain ⟨rest, rfl⟩ := List.head?_eq_some_iff.mp hhole
    have hm : grammar.move q.string ('#' :: '{' :: rest) = _ := move_openHole q rest
    rw [hu, hr, hm]
    exact .hole rfl rfl rfl

/-- From a state in a string on, the steps go to the end of the segment, or all the way to the end
of the text. -/
theorem exists_segment (hu : u.stack.top.mode = q.string) (h : Scanner.Trace grammar u steps)
    (hend : (u.stateAfter steps).rest = []) :
    ∃ inner back, steps = inner ++ back ∧ IsSegment q u inner back := by
  induction h with
  | done u =>
      rw [Scanner.stateAfter_nil] at hend
      refine ⟨[], [], rfl, by simp, trivial, ?_, by simp, fun _ => ?_⟩
      · rw [hend]
        rfl
      · rw [hend]
        rfl
  | @step u v p steps hn ht ih =>
      cases hd : q.delimits u.rest with
      | true =>
          have hends := endsSegment_next hu hn hd
          refine ⟨[], (p, v) :: steps, rfl, by simp, trivial, ?_, ?_, nofun⟩
          · rw [Quote.segmentLength_delimits hd]
            rfl
          · exact fun step hstep => Option.some.inj hstep ▸ hends
      | false =>
          rw [Scanner.stateAfter_cons] at hend
          obtain ⟨hne, move, hmove, rfl, rfl⟩ := Scanner.move_of_next? hn
          obtain ⟨count, hm, hl⟩ := move_in_segment hne hd
          rw [hu, hm] at hmove
          subst hmove
          obtain ⟨inner, back, rfl, hinner⟩ := ih hu hend
          refine ⟨_ :: inner, back, rfl, hinner.cons hn rfl rfl ?_⟩
          have hle := (grammar.move_count_bounds q.string hne).2
          rw [hm] at hle
          rw [hl, List.length_take_of_le hle]

/-- A segment that does not go to the end of the text is left by the step at the character after
it. -/
theorem IsSegment.exists_end (h : IsSegment q u inner back)
    (ht : Scanner.Trace grammar u (inner ++ back))
    (hl : q.segmentLength u.rest < u.rest.length) :
    ∃ step more, back = step :: more ∧ EndsSegment q u.stack step ∧
      step.1.token.start =
        u.offset + Text.byteLength (u.rest.take (q.segmentLength u.rest)) ∧
      u.rest.drop (q.segmentLength u.rest) = step.1.token.text ++ step.2.rest := by
  obtain ⟨step, more, rfl⟩ := List.exists_cons_of_ne_nil
    fun hnil => Nat.ne_of_lt hl (h.exhausts hnil)
  obtain ⟨hinner, hback⟩ := Scanner.trace_append.mp ht
  have hoffset := hinner.offset_eq
  have hrest := hinner.rest_eq
  rw [h.taken] at hoffset hrest
  cases hback with
  | step hn _ =>
      obtain ⟨_, hr, hstart, _⟩ := Scanner.next?_takes hn
      refine ⟨_, more, rfl, h.ends _ rfl, hstart.trans hoffset, ?_⟩
      rw [← hr]
      exact List.append_cancel_left ((List.take_append_drop _ _).trans hrest)

/-- The step that opens a string, and the state in the string. -/
theorem next_openString (hx : u.stack.top.mode.scansExpressions = true) {rest : List Char}
    (hr : u.rest = q.char :: rest) (hn : u.next? grammar = some (p, v)) :
    p.token.kind = .string ∧ p.token.text = [q.char] ∧ v.rest = rest ∧
      v.stack = u.stack.push q.string := by
  have hbrace : q.char ≠ '{' ∧ q.char ≠ '}' := by
    cases q <;> decide
  obtain ⟨_, move, rfl, rfl, rfl⟩ := Scanner.move_of_next? hn
  rw [hr, move_of_ne_brace hx hbrace.1 hbrace.2, move_openString]
  exact ⟨rfl, rfl, rfl, rfl⟩

/-- The steps take a whole string with this content, and leave the stack that they began on. -/
structure IsString (q : Quote) (u : Scanner) (content rest : List Char)
    (inner : List (Piece × Scanner)) : Prop where
  kinds : ∀ step ∈ inner, step.1.token.kind = .string
  taken : Scanner.taken inner = q.char :: (content ++ [q.char])
  frames : (u.stateAfter inner).stack.frames = u.stack.frames
  rest : (u.stateAfter inner).rest = rest

/-- A string opens, has one segment, and closes. -/
theorem IsSegment.isString {content rest : List Char} {step : Piece × Scanner}
    (h : IsSegment q v inner back) (htaken : Scanner.taken inner = content)
    (hk : p.token.kind = .string) (htext : p.token.text = [q.char])
    (hstack : v.stack = u.stack.push q.string) (hkind : step.1.token.kind = .string)
    (hquote : step.1.token.text = [q.char]) (hpop : step.2.stack = v.stack.pop)
    (hrest : step.2.rest = rest) :
    IsString q u content rest ((p, v) :: (inner ++ [step])) := by
  have hafter : u.stateAfter ((p, v) :: (inner ++ [step])) = step.2 := by
    rw [Scanner.stateAfter_cons, Scanner.stateAfter_append]
    rfl
  refine ⟨List.forall_mem_cons.mpr ⟨hk, ?_⟩, ?_, ?_, ?_⟩
  · rw [List.forall_mem_append, List.forall_mem_singleton]
    exact ⟨fun other hmem => (h.pieces other hmem).1, hkind⟩
  · rw [Scanner.taken, List.flatMap_cons, ← Scanner.taken, Scanner.taken_concat, htaken, htext,
      hquote]
    rfl
  · rw [hafter, hpop, hstack]
    rfl
  · rw [hafter, hrest]

theorem exists_string {text rest : List Char} (hx : u.stack.top.mode.scansExpressions = true)
    (hr : u.rest = q.char :: (q.escaped text ++ q.char :: rest))
    (h : Scanner.Trace grammar u steps) (hend : (u.stateAfter steps).rest = []) :
    ∃ inner back, steps = inner ++ back ∧ IsString q u (q.escaped text) rest inner := by
  cases h with
  | done =>
      rw [Scanner.stateAfter_nil, hr] at hend
      cases hend
  | @step _ v p steps hn ht =>
      obtain ⟨hk, htext, hv, hstack⟩ := next_openString hx hr hn
      rw [Scanner.stateAfter_cons] at hend
      obtain ⟨inner, back, rfl, hsegment⟩ := exists_segment (congrArg (·.top.mode) hstack) ht hend
      have hlength : q.segmentLength v.rest = (q.escaped text).length := by
        rw [hv, Quote.segmentLength_escaped]
      have hshort : q.segmentLength v.rest < v.rest.length := by
        rw [hlength, hv, List.length_append]
        exact Nat.lt_add_of_pos_right (Nat.succ_pos _)
      obtain ⟨step, more, rfl, hstep, _, hdrop⟩ := hsegment.exists_end ht hshort
      have htaken := hsegment.taken
      rw [hlength, hv, List.drop_left] at hdrop
      rw [hlength, hv, List.take_left] at htaken
      cases hstep with
      | close hkind hquote hpop =>
          rw [hquote] at hdrop
          exact ⟨(p, v) :: (inner ++ [step]), more, by simp,
            hsegment.isString htaken hk htext hstack hkind hquote hpop (List.cons.inj hdrop).2.symm⟩
      | hole _ hopen =>
          rw [hopen] at hdrop
          have hsign : q.char = '#' := (List.cons.inj hdrop).1
          cases q <;> cases hsign

end

/-- A segment of a string ends at the first quote or hole that is not escaped. What comes before it
is scanned as tokens of the string, and the next token closes the string or opens the hole. A string
of escaped text is scanned as such tokens only, and left on the stack that it began on. -/
theorem segment_ends_at_first_sign (q : Quote) (u : Scanner) :
    (u.stack.top.mode = q.string → ∃ inner back,
        Scanner.run grammar u.rest.length u = inner ++ back ∧ IsSegment q u inner back ∧
        (q.segmentLength u.rest < u.rest.length → ∃ step more, back = step :: more ∧
          EndsSegment q u.stack step ∧
          step.1.token.start =
            u.offset + Text.byteLength (u.rest.take (q.segmentLength u.rest)) ∧
          u.rest.drop (q.segmentLength u.rest) = step.1.token.text ++ step.2.rest)) ∧
      ∀ text rest, u.stack.top.mode.scansExpressions = true →
        u.rest = q.char :: (q.escaped text ++ q.char :: rest) → ∃ inner back,
        Scanner.run grammar u.rest.length u = inner ++ back ∧
        IsString q u (q.escaped text) rest inner := by
  have htrace := Scanner.trace_run (g := grammar) u.rest.length u
  have hend := Scanner.rest_run_eq_nil (g := grammar) u.rest.length u (Nat.le_refl _)
  refine ⟨fun hu => ?_, fun text rest hx hr => exists_string hx hr htrace hend⟩
  obtain ⟨inner, back, hsplit, hsegment⟩ := exists_segment hu htrace hend
  exact ⟨inner, back, hsplit, hsegment, hsegment.exists_end (hsplit ▸ htrace)⟩

/-- In a string, with an escaped quote, a number sign and a hole in front. -/
def insideString : Scanner := Scanner.after grammar "\"a\\\"#b#\x7bc\x7d\"".toList 1

/-- In a hole, with a string of two escaped signs in front. -/
def beforeString : Scanner := Scanner.after grammar "\"#\x7b'\\'\\\\'\x7d".toList 2

theorem insideString_ends :
    (insideString.stack.top.mode = Quote.double.string ∧ ∃ inner back,
        Scanner.run grammar insideString.rest.length insideString = inner ++ back ∧
        IsSegment .double insideString inner back ∧
        (Quote.double.segmentLength insideString.rest < insideString.rest.length ∧
          ∃ step more, back = step :: more ∧
          EndsSegment .double insideString.stack step ∧
          step.1.token.start = insideString.offset + Text.byteLength
            (insideString.rest.take (Quote.double.segmentLength insideString.rest)) ∧
          insideString.rest.drop (Quote.double.segmentLength insideString.rest) =
            step.1.token.text ++ step.2.rest)) ∧
      beforeString.stack.top.mode.scansExpressions = true ∧
        beforeString.rest = '\'' :: (Quote.single.escaped "'\\".toList ++ '\'' :: ['\x7d']) ∧
        ∃ inner back, Scanner.run grammar beforeString.rest.length beforeString = inner ++ back ∧
        IsString .single beforeString (Quote.single.escaped "'\\".toList) ['\x7d'] inner := by
  have hmode : insideString.stack.top.mode = Quote.double.string := by decide +kernel
  have hshort : Quote.double.segmentLength insideString.rest < insideString.rest.length := by
    decide +kernel
  have hx : beforeString.stack.top.mode.scansExpressions = true := by decide +kernel
  have hrest : beforeString.rest =
      '\'' :: (Quote.single.escaped "'\\".toList ++ '\'' :: ['\x7d']) := by decide +kernel
  obtain ⟨inner, back, hsplit, hsegment, hends⟩ :=
    (segment_ends_at_first_sign .double insideString).1 hmode
  exact ⟨⟨hmode, inner, back, hsplit, hsegment, hshort, hends hshort⟩, hx, hrest,
    (segment_ends_at_first_sign .single beforeString).2 _ _ hx hrest⟩

end Liquidsoap
end LiquidsoapHighlight
