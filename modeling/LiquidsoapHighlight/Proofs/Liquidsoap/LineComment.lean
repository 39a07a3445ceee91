import LiquidsoapHighlight.Proofs.Liquidsoap.DocTags
import LiquidsoapHighlight.Proofs.Liquidsoap.LastLine
import LiquidsoapHighlight.Proofs.Liquidsoap.Openers
import LiquidsoapHighlight.Proofs.Token.Turns

/-!
Line comments. A line comment takes the rest of its line, whatever signs there are in it, and
nothing of the next one. The doc tags in it are tokens of their own, which take turns with its other
text.
-/

namespace LiquidsoapHighlight
namespace Liquidsoap

def IsDocTag (text : List Char) : Prop := ∃ name ∈ docTagNames, text = '@' :: name

/-- The text is one doc tag, or several one right after the other. -/
def IsDocTags (text : List Char) : Prop :=
  ∃ tags, tags ≠ [] ∧ (∀ tag ∈ tags, IsDocTag tag) ∧ text = tags.flatten

/-- The characters up to the end of the line. -/
def restOfLine (text : List Char) : List Char := text.takeWhile (· != '\n')

theorem restOfLine_append {front : List Char} (h : '\n' ∉ front) (rest : List Char) :
    restOfLine (front ++ rest) = front ++ restOfLine rest := by
  refine List.takeWhile_append_of_pos fun c hc => ?_
  rw [bne_iff_ne]
  rintro rfl
  exact h hc

/-- The piece is a part of a line comment in which its frame has the serial number. -/
structure IsRemark (serial : UInt32) (p : Piece) : Prop where
  kind : p.token.kind = .comment ∨ p.token.kind = .pragma
  tag : p.token.kind = .pragma → IsDocTag p.token.text
  construct : p.construct = some serial

theorem remark_of_rule {rule : Rule} (hr : rule ∈ rules .lineComment) {text : List Char}
    {count : Nat} (hm : rule.pattern.matchCount? text = some count)
    (hline : text.head? ≠ some '\n') :
    rule.transition = .stay ∧
      (rule.kind = .comment ∨ rule.kind = .pragma ∧ IsDocTag (text.take count)) := by
  simp only [rules, lineCommentRules, List.mem_cons, List.not_mem_nil, or_false] at hr
  rcases hr with rfl | rfl | rfl | rfl
  · exact ⟨rfl, .inr ⟨rfl, mem_words_docTag (Pattern.matchCount?_expression hm rfl)⟩⟩
  · exact ⟨rfl, .inl rfl⟩
  · have htake := Pattern.take_of_literal hm
    have hsplit := List.take_append_drop count text
    rw [htake] at hsplit
    rw [← hsplit] at hline
    exact absurd rfl hline
  · exact ⟨rfl, .inl rfl⟩

theorem next_in_line {s t : Scanner} {p : Piece} (hm : s.stack.top.mode = .lineComment)
    (hn : s.next? grammar = some (p, t)) (hline : s.rest.head? ≠ some '\n') :
    IsRemark s.stack.top.serial p ∧ t.stack = s.stack ∧ '\n' ∉ p.token.text := by
  have hconstruct := construct_in_leaf (hm ▸ rfl) hn
  have hbreak : '\n' ∉ p.token.text := by
    intro hp
    obtain ⟨below, hrest⟩ := exists_below_of_mem hm hn hp
    rw [hrest] at hline
    exact hline rfl
  obtain ⟨rule, hr, count, hcount, rfl, rfl⟩ := exists_rule hn
  obtain ⟨hstay, hkind⟩ := remark_of_rule (hm ▸ hr) hcount hline
  refine ⟨⟨hkind.imp_right And.left, fun hpragma => ?_, hconstruct⟩, ?_, hbreak⟩
  · obtain hcomment | ⟨_, htag⟩ := hkind
    · cases hcomment.symm.trans hpragma
    · exact htag
  · rw [hstay]
    rfl

/-- Of the steps from a state in a line comment on, the first ones are those of the comment, and the
next one, if any, takes the line break after it. -/
structure IsLine (u : Scanner) (inner back : List (Piece × Scanner)) : Prop where
  pieces : ∀ step ∈ inner, IsRemark u.stack.top.serial step.1
  taken : Scanner.taken inner = restOfLine u.rest
  ends : ∀ step ∈ back.head?, step.1.token.kind = .plain ∧ step.1.token.text = ['\n'] ∧
    step.2.stack = u.stack.pop
  exhausts : back = [] → restOfLine u.rest = u.rest

section
variable {u v : Scanner} {p : Piece} {steps inner back : List (Piece × Scanner)}

theorem IsLine.cons (h : IsLine v inner back) (hm : u.stack.top.mode = .lineComment)
    (hn : u.next? grammar = some (p, v)) (hline : u.rest.head? ≠ some '\n') :
    IsLine u ((p, v) :: inner) back := by
  obtain ⟨hremark, hstack, hbreak⟩ := next_in_line hm hn hline
  obtain ⟨_, hr, _, _⟩ := Scanner.next?_takes hn
  refine ⟨List.forall_mem_cons.mpr ⟨hremark, hstack ▸ h.pieces⟩, ?_, hstack ▸ h.ends,
    fun hnil => ?_⟩
  · rw [hr, restOfLine_append hbreak, ← h.taken]
    rfl
  · rw [hr, restOfLine_append hbreak, h.exhausts hnil]

theorem next_at_lineBreak (hm : u.stack.top.mode = .lineComment)
    (hn : u.next? grammar = some (p, v)) (hline : u.rest.head? = some '\n') :
    p.token.kind = .plain ∧ p.token.text = ['\n'] ∧ v.stack = u.stack.pop := by
  obtain ⟨below, hr⟩ := List.head?_eq_some_iff.mp hline
  obtain ⟨_, move, rfl, rfl, rfl⟩ := Scanner.move_of_next? hn
  rw [hm, hr, move_lineBreak]
  exact ⟨rfl, rfl, rfl⟩

/-- From a state in a line comment on, the steps go to the end of the line. -/
theorem exists_line (hm : u.stack.top.mode = .lineComment) (h : Scanner.Trace grammar u steps)
    (hend : (u.stateAfter steps).rest = []) :
    ∃ inner back, steps = inner ++ back ∧ IsLine u inner back := by
  induction h with
  | done u =>
      rw [Scanner.stateAfter_nil] at hend
      refine ⟨[], [], rfl, by simp, ?_, by simp, fun _ => ?_⟩
      · rw [hend]
        rfl
      · rw [hend]
        rfl
  | @step u v p steps hn ht ih =>
      by_cases hline : u.rest.head? = some '\n'
      · obtain ⟨below, hr⟩ := List.head?_eq_some_iff.mp hline
        refine ⟨[], (p, v) :: steps, rfl, by simp, ?_, ?_, nofun⟩
        · rw [hr]
          rfl
        · exact fun step hstep => Option.some.inj hstep ▸ next_at_lineBreak hm hn hline
      · rw [Scanner.stateAfter_cons] at hend
        obtain ⟨_, hstack, _⟩ := next_in_line hm hn hline
        obtain ⟨inner, back, rfl, hinner⟩ := ih (hstack ▸ hm) hend
        exact ⟨(p, v) :: inner, back, rfl, hinner.cons hm hn hline⟩

theorem IsLine.back_eq_nil (h : IsLine u inner back)
    (ht : Scanner.Trace grammar u (inner ++ back)) (hr : restOfLine u.rest = u.rest) :
    back = [] := by
  obtain ⟨hinner, hback⟩ := Scanner.trace_append.mp ht
  have hrest := hinner.rest_eq
  rw [h.taken, hr, List.self_eq_append_right] at hrest
  have hle := hback.length_add_le
  rw [hrest, List.length_nil] at hle
  exact List.eq_nil_of_length_eq_zero (Nat.eq_zero_of_add_eq_zero_right (Nat.le_zero.mp hle))

/-- A line that is not the last one is left by the step at the line break after it. -/
theorem IsLine.back_eq_cons (h : IsLine u inner back)
    (ht : Scanner.Trace grammar u (inner ++ back)) {below : List Char}
    (hr : u.rest = restOfLine u.rest ++ '\n' :: below) :
    ∃ q v more, back = (q, v) :: more ∧
      q.token = ⟨.plain, u.offset + Text.byteLength (restOfLine u.rest), ['\n']⟩ ∧
      v = ⟨q.token.stop, below, u.stack.pop⟩ := by
  have hne : back ≠ [] := by
    intro hnil
    have hlength := congrArg List.length hr
    rw [h.exhausts hnil, List.length_append, List.length_cons] at hlength
    omega
  obtain ⟨⟨q, v⟩, more, rfl⟩ := List.exists_cons_of_ne_nil hne
  obtain ⟨hkind, htext, hpop⟩ := h.ends (q, v) rfl
  obtain ⟨hinner, hback⟩ := Scanner.trace_append.mp ht
  have hrest := hinner.rest_eq
  have hoffset := hinner.offset_eq
  rw [h.taken] at hrest hoffset
  cases hback with
  | step hn _ =>
      obtain ⟨_, hnext, hstart, hstop⟩ := Scanner.next?_takes hn
      rw [hnext, htext] at hrest
      have hbelow := List.append_cancel_left (hr.symm.trans hrest)
      refine ⟨q, v, more, rfl, ?_, ?_⟩
      · rw [← hkind, ← htext, ← hoffset, ← hstart]
      · rw [← hstop, ← hpop, (List.cons.inj hbelow).2]
        rfl

end

theorem Effect.of_push_lineComment {mode : Mode} {kind : TokenKind} {taken : List Char}
    (h : Effect mode kind taken (.push .lineComment)) :
    kind = .comment ∧ taken = lineCommentOpen := by
  generalize ht : Transition.push .lineComment = t at h
  cases h with
  | openLine => exact ⟨rfl, rfl⟩
  | openString q | openHole q => cases q <;> cases ht
  | _ => cases ht

/-- The tokens are those of a line comment of these characters. -/
structure IsLineComment (offset : Nat) (line : List Char) (tokens : List Token) : Prop where
  placed : Token.Placed offset tokens
  texts : Token.texts tokens = line
  opens : ∃ first ∈ tokens.head?, first.kind = .comment ∧ lineCommentOpen <+: first.text
  turns : ∀ i (hi : i < tokens.length),
    tokens[i].kind = if i % 2 = 0 then .comment else .pragma
  tags : ∀ t ∈ tokens, t.kind = .pragma → IsDocTags t.text

/-- The line break at the offset is the start of plain text, and after it the scan goes on with the
characters below and on these frames. -/
structure EndsLine (text : List Char) (back : List Token) (offset : Nat) (below : List Char)
    (frames : List Frame) : Prop where
  plain : ∃ t ∈ back.head?, t.kind = .plain ∧ t.start = offset ∧ ['\n'] <+: t.text
  after : ∃ count, (Scanner.after grammar text count).rest = below ∧
    (Scanner.after grammar text count).offset = offset + 1 ∧
    (Scanner.after grammar text count).stack.frames = frames

section
variable {text : List Char} {step : Nat} {p : Piece} {inner back : List (Piece × Scanner)}

/-- The steps of a line comment, from the one that opens it on. -/
theorem exists_lineComment (h : (Scanner.after grammar text (step + 1)).stack =
      (Scanner.after grammar text step).stack.push .lineComment) :
    ∃ p inner back,
      (Scanner.steps grammar text)[step]? = some (p, Scanner.after grammar text (step + 1)) ∧
      (Scanner.steps grammar text).drop (step + 1) = inner ++ back ∧
      p.token = ⟨.comment, (Scanner.after grammar text step).offset, lineCommentOpen⟩ ∧
      p.construct = some ((Scanner.after grammar text step).stack.pushes + 1) ∧
      IsLine (Scanner.after grammar text (step + 1)) inner back := by
  obtain ⟨p, kind, taken, hstep, he, rfl⟩ := exists_push h
  obtain ⟨rfl, rfl⟩ := he.of_push_lineComment
  have hmode : (Scanner.after grammar text (step + 1)).stack.top.mode = .lineComment := by
    rw [h]
    rfl
  obtain ⟨inner, back, hsplit, hline⟩ :=
    exists_line hmode (Scanner.trace_take_drop grammar text (step + 1)).2
      (Scanner.rest_drop_steps_eq_nil grammar text (step + 1))
  have hencloses : grammar.encloses .lineComment = true := rfl
  exact ⟨_, inner, back, hstep, hsplit, rfl, Grammar.construct?_push hencloses _, hline⟩

/-- The pieces of a line comment are joined with each other only. -/
theorem scan_around_line (hstep : (Scanner.steps grammar text)[step]? =
      some (p, Scanner.after grammar text (step + 1)))
    (hsplit : (Scanner.steps grammar text).drop (step + 1) = inner ++ back)
    (hp : IsRemark ((Scanner.after grammar text step).stack.pushes + 1) p)
    (hinner : ∀ step ∈ inner, step.1.token.kind = .comment ∨ step.1.token.kind = .pragma)
    (hback : ∀ step ∈ back.head?, step.1.token.kind = .plain) :
    Token.scan grammar text =
      Token.coalesce (((Scanner.steps grammar text).take step).map Prod.fst) ++
        (Token.coalesce (p :: inner.map Prod.fst) ++ Token.coalesce (back.map Prod.fst)) := by
  have hbefore := not_joins_opener hp.kind hp.construct
    (Nat.le_of_lt (List.getElem?_eq_some_iff.mp hstep).1)
  have hafter : ∀ q ∈ (p :: inner.map Prod.fst).getLast?,
      ∀ r ∈ (back.map Prod.fst).head?, q.joins r = false := by
    intro q hq r hr
    have hremark : q.token.kind = .comment ∨ q.token.kind = .pragma := by
      obtain rfl | hmem := List.mem_cons.mp (List.mem_of_getLast? hq)
      · exact hp.kind
      · obtain ⟨step, hstep, rfl⟩ := List.mem_map.mp hmem
        exact hinner step hstep
    rw [List.head?_map] at hr
    obtain ⟨next, hnext, rfl⟩ := Option.map_eq_some_iff.mp hr
    rw [← Bool.not_eq_true, Token.joins_plain_iff (hback next hnext)]
    rintro hplain
    simp [hplain] at hremark
  have hpieces : Scanner.pieces grammar text =
      ((Scanner.steps grammar text).take step).map Prod.fst ++
        (p :: inner.map Prod.fst ++ back.map Prod.fst) := by
    rw [Scanner.pieces]
    refine (congrArg (List.map Prod.fst) (Scanner.steps_eq_around hstep hsplit)).trans ?_
    simp
  rw [Token.scan, hpieces, Token.coalesce_append, Token.coalesce_append hafter]
  intro q hq r hr
  obtain rfl := Option.some.inj hr
  exact hbefore q hq

/-- The tokens before a step make up the text before it. -/
theorem texts_before (text : List Char) (step : Nat) :
    text = Token.texts (Token.coalesce (((Scanner.steps grammar text).take step).map Prod.fst)) ++
        (Scanner.after grammar text step).rest ∧
      Text.byteLength (Token.texts
        (Token.coalesce (((Scanner.steps grammar text).take step).map Prod.fst))) =
        (Scanner.after grammar text step).offset := by
  have htrace := (Scanner.trace_take_drop grammar text step).1
  rw [htrace.placed_coalesce.2]
  exact ⟨htrace.rest_eq, (htrace.offset_eq.trans (Nat.zero_add _)).symm⟩

theorem isDocTags_of_pieces {run : List Piece} (hne : run ≠ [])
    (h : ∀ p ∈ run, IsDocTag p.token.text) : IsDocTags (run.flatMap fun p => p.token.text) := by
  refine ⟨run.map fun p => p.token.text, by simpa using hne, ?_, List.flatMap_def⟩
  exact List.forall_mem_map.mpr h

theorem IsLine.isLineComment {s u : Scanner} (h : IsLine u inner back)
    (ht : Scanner.Trace grammar s ((p, u) :: inner)) (hp : IsRemark u.stack.top.serial p)
    (hk : p.token.kind = .comment) (htext : p.token.text = lineCommentOpen) :
    IsLineComment s.offset (lineCommentOpen ++ restOfLine u.rest)
      (Token.coalesce (p :: inner.map Prod.fst)) := by
  have hremarks : ∀ q ∈ p :: inner.map Prod.fst, IsRemark u.stack.top.serial q :=
    List.forall_mem_cons.mpr ⟨hp, List.forall_mem_map.mpr h.pieces⟩
  have hplaced := ht.placed_coalesce
  have hof : Token.OfConstruct u.stack.top.serial (p :: inner.map Prod.fst) :=
    fun q hq => ⟨(hremarks q hq).kind, (hremarks q hq).construct⟩
  refine ⟨hplaced.1, ?_, ?_, Token.kind_of_turn hof ?_, ?_⟩
  · rw [← h.taken, ← htext]
    exact hplaced.2
  · obtain ⟨run, rest, _, htokens⟩ := Token.exists_coalesce_cons p (inner.map Prod.fst)
    rw [htokens, ← htext]
    exact ⟨_, rfl, hk, List.prefix_append _ _⟩
  · exact fun q hq => Option.some.inj hq ▸ hk
  · intro t htoken hpragma
    obtain ⟨run, hne, hrun, htags⟩ := Token.exists_run_of_mem_coalesce htoken
    rw [htags]
    refine isDocTags_of_pieces hne fun q hq => ?_
    obtain ⟨hmem, hkind⟩ := hrun q hq
    exact (hremarks q hmem).tag (hkind.trans hpragma)

/-- A line break after a line comment is plain text, and takes the scan back to the frames before
the comment. -/
theorem IsLine.endsLine {s u : Scanner} (h : IsLine u inner back)
    (ht : Scanner.Trace grammar u (inner ++ back)) {count : Nat}
    (hsplit : (Scanner.steps grammar text).drop count = inner ++ back)
    (hstack : u.stack = s.stack.push .lineComment) {below : List Char}
    (hr : u.rest = restOfLine u.rest ++ '\n' :: below) :
    EndsLine text (Token.coalesce (back.map Prod.fst))
      (u.offset + Text.byteLength (restOfLine u.rest)) below s.stack.frames := by
  obtain ⟨q, v, more, rfl, htoken, rfl⟩ := h.back_eq_cons ht hr
  constructor
  · obtain ⟨run, rest, _, htokens⟩ := Token.exists_coalesce_cons q (more.map Prod.fst)
    refine ⟨Token.joined q run, ?_, congrArg Token.kind htoken, congrArg Token.start htoken, ?_⟩
    · rw [List.map_cons, htokens]
      rfl
    · have htext : ['\n'] = q.token.text := (congrArg Token.text htoken).symm
      rw [htext]
      exact List.prefix_append _ _
  · have happ : (Scanner.steps grammar text).drop count =
        (inner ++ [(q, ⟨q.token.stop, below, u.stack.pop⟩)]) ++ more := by
      rw [hsplit]
      simp
    refine ⟨count + (inner ++ [(q, (⟨q.token.stop, below, u.stack.pop⟩ : Scanner))]).length, ?_⟩
    rw [Scanner.after_add happ, Scanner.stateAfter_append, htoken, hstack]
    exact ⟨rfl, rfl, rfl⟩

/-- Where a line comment opens, its tokens take the rest of the line and nothing else. -/
theorem lineComment_takes_restOfLine (text : List Char) (step : Nat)
    (h : (Scanner.after grammar text (step + 1)).stack =
      (Scanner.after grammar text step).stack.push .lineComment) :
    lineCommentOpen <+: (Scanner.after grammar text step).rest ∧
      ∃ front tokens back, Token.scan grammar text = front ++ (tokens ++ back) ∧
        text = Token.texts front ++ (Scanner.after grammar text step).rest ∧
        Text.byteLength (Token.texts front) = (Scanner.after grammar text step).offset ∧
        IsLineComment (Scanner.after grammar text step).offset
          (restOfLine (Scanner.after grammar text step).rest) tokens ∧
        (restOfLine (Scanner.after grammar text step).rest =
          (Scanner.after grammar text step).rest → back = []) ∧
        ∀ below, (Scanner.after grammar text step).rest =
            restOfLine (Scanner.after grammar text step).rest ++ '\n' :: below →
          EndsLine text back ((Scanner.after grammar text step).offset +
              Text.byteLength (restOfLine (Scanner.after grammar text step).rest)) below
            (Scanner.after grammar text step).stack.frames := by
  obtain ⟨p, inner, back, hstep, hsplit, htoken, hconstruct, hline⟩ := exists_lineComment h
  have htail := (Scanner.trace_take_drop grammar text (step + 1)).2
  rw [hsplit] at htail
  have hn := (Scanner.next?_after hstep).1
  obtain ⟨_, hrest, _, hoffset⟩ := Scanner.next?_takes hn
  rw [htoken] at hrest hoffset
  have hsign : '\n' ∉ lineCommentOpen := by decide
  have hlines := restOfLine_append hsign (Scanner.after grammar text (step + 1)).rest
  have hp : IsRemark ((Scanner.after grammar text step).stack.pushes + 1) p := by
    refine ⟨.inl (congrArg Token.kind htoken), fun hpragma => ?_, hconstruct⟩
    cases (congrArg Token.kind htoken).symm.trans hpragma
  have hserial : (Scanner.after grammar text (step + 1)).stack.top.serial =
      (Scanner.after grammar text step).stack.pushes + 1 := by
    rw [h]
    rfl
  have hscan := scan_around_line hstep hsplit hp (fun step hstep => (hline.pieces step hstep).kind)
    fun step hstep => (hline.ends step hstep).1
  obtain ⟨hbefore, hoffsets⟩ := texts_before text step
  have htokens := hline.isLineComment (.step hn (Scanner.trace_append.mp htail).1)
    (hserial ▸ hp) (congrArg Token.kind htoken) (congrArg Token.text htoken)
  rw [hrest] at hbefore ⊢
  rw [hlines]
  refine ⟨List.prefix_append _ _, _, _, _, hscan, hbefore, hoffsets, htokens, ?_, ?_⟩
  · intro hlast
    rw [hline.back_eq_nil htail (List.append_cancel_left hlast)]
    rfl
  · intro below hbelow
    rw [List.append_assoc] at hbelow
    have hends := hline.endsLine htail hsplit h (List.append_cancel_left hbelow)
    rwa [hoffset, Token.stop, Token.length, Nat.add_assoc, ← Text.byteLength_append] at hends

/-- A line comment in a hole, with signs that have a meaning elsewhere and three doc tags. -/
def commentInHole : List Char := "\"#\x7bx # #<' @flag@param \"\x7d @method\n\x7d\"".toList

theorem commentInHole_takes_line :
    (Scanner.after grammar commentInHole 5).stack =
        (Scanner.after grammar commentInHole 4).stack.push .lineComment ∧
      ∃ front tokens back, Token.scan grammar commentInHole = front ++ (tokens ++ back) ∧
        IsLineComment 5 "# #<' @flag@param \"\x7d @method".toList tokens ∧
        EndsLine commentInHole back 33 "\x7d\"".toList
          (Scanner.after grammar commentInHole 4).stack.frames := by
  have hopens : (Scanner.after grammar commentInHole 5).stack =
      (Scanner.after grammar commentInHole 4).stack.push .lineComment := by
    decide +kernel
  have hoffset : (Scanner.after grammar commentInHole 4).offset = 5 := by decide +kernel
  have hrest : (Scanner.after grammar commentInHole 4).rest =
      "# #<' @flag@param \"\x7d @method\n\x7d\"".toList := by
    decide +kernel
  obtain ⟨_, front, tokens, back, hscan, _, _, htokens, _, hends⟩ :=
    lineComment_takes_restOfLine commentInHole 4 hopens
  rw [hoffset, hrest] at htokens hends
  exact ⟨hopens, front, tokens, back, hscan, htokens, hends "\x7d\"".toList rfl⟩

end
end Liquidsoap
end LiquidsoapHighlight
