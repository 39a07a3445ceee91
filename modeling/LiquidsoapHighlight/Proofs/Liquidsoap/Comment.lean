import LiquidsoapHighlight.Proofs.Liquidsoap.StackShape
import LiquidsoapHighlight.Proofs.Regex.Repetition
import LiquidsoapHighlight.Proofs.Token.Joining

/-!
The steps inside comments. A block comment keeps its frame until the sign that closes it, and all
its pieces name that frame; so do the pieces of a line comment and of an annotation block.
-/

namespace LiquidsoapHighlight

def Mode.isComment : Mode → Bool
  | lineComment | blockComment => true
  | _ => false

/-- The construct has no other constructs in it. -/
def Mode.isLeaf : Mode → Bool
  | lineComment | blockComment | annotationBlock => true
  | _ => false

theorem Mode.not_isLeaf {mode : Mode} (h : mode.scansExpressions = true) :
    ¬ mode.isLeaf = true := by
  cases mode with
  | lineComment | blockComment | annotationBlock => cases h
  | _ => exact Bool.false_ne_true

theorem Mode.isLeaf_of_isComment {mode : Mode} (h : mode.isComment = true) :
    mode.isLeaf = true := by
  cases mode with
  | lineComment | blockComment => rfl
  | _ => cases h

namespace Grammar

theorem construct?_push {g : Grammar} {mode : Mode} (h : g.encloses mode = true)
    (s : ModeStack) : g.construct? s (.push mode) = some (s.pushes + 1) := by
  rw [construct?_of_push, if_pos h]

theorem construct?_inside {g : Grammar} {s : ModeStack} {t : Transition}
    (h : g.encloses s.top.mode = true) (ht : ∀ mode, t ≠ .push mode) :
    g.construct? s t = some s.top.serial := by
  rw [construct?_of_ne_push g s ht, if_pos h]

end Grammar

namespace Liquidsoap

theorem whitespace_none {c : Char} (h : Text.blank.contains c = false) (rest : List Char) :
    (Pattern.expression whitespace false).matchCount? (c :: rest) = none := by
  rw [Pattern.matchCount?_run (s := ⟨false, Text.blank⟩) rfl]
  simp [CharClass.contains, h]

/-- Where an expression is scanned, the sign of a block comment is not taken for a line comment. -/
theorem move_blockCommentOpen {mode : Mode} (h : mode.scansExpressions = true)
    (rest : List Char) :
    grammar.move mode (blockCommentOpen ++ rest) = ⟨.comment, 2, .push .blockComment⟩ := by
  have htop : Grammar.firstMatch? topLevelRules (blockCommentOpen ++ rest) =
      some (⟨"block-comment-open", .literal blockCommentOpen, .comment, .push .blockComment⟩,
        2) := by
    rw [topLevelRules, Grammar.firstMatch?_cons_none, Grammar.firstMatch?_cons_some]
    · rfl
    · exact whitespace_none (by decide) ('<' :: rest)
  have hrules : Grammar.firstMatch? (rules mode) (blockCommentOpen ++ rest) =
      Grammar.firstMatch? topLevelRules (blockCommentOpen ++ rest) := by
    cases mode with
    | topLevel | doubleInterpolation | singleInterpolation | braces => rfl
    | _ => cases h
  rw [move_of_firstMatch (hrules.trans htop)]

theorem move_blockCommentClose (rest : List Char) :
    grammar.move .blockComment (blockCommentClose ++ rest) = ⟨.comment, 2, .unnest⟩ := by
  rfl

/-- A step that takes the sign of a line comment has not passed over that of a block comment. -/
theorem not_blockComment_of_lineComment {s t : Scanner} {p : Piece}
    (hx : s.stack.top.mode.scansExpressions = true) (hn : s.next? grammar = some (p, t))
    (hp : p.token.text = lineCommentOpen) : ¬ blockCommentOpen <+: s.rest := by
  rintro ⟨rest, hr⟩
  have ht := Scanner.text_next hn
  rw [← hr, move_blockCommentOpen hx, hp] at ht
  cases ht

namespace Effect
variable {mode : Mode} {kind : TokenKind} {taken : List Char} {t : Transition}

theorem mode_of_comment (h : Effect mode .comment taken t) :
    mode.scansExpressions = true ∨ mode.isComment = true := by
  generalize hk : TokenKind.comment = kind at h
  cases h with
  | content _ hc =>
      subst hk
      cases mode with
      | lineComment | blockComment => exact .inr rfl
      | _ => exact absurd hc (by decide)
  | openComment hx | openLine hx => exact .inl hx
  | nestComment | unnestComment => exact .inr rfl
  | _ => cases hk

theorem ne_push (h : Effect mode kind taken t) (hm : mode.isLeaf = true) (target : Mode) :
    t ≠ .push target := by
  rintro rfl
  cases h with
  | openComment hx | openLine hx | openString _ hx | openArgsof hx | openBrace hx =>
      exact Mode.not_isLeaf hx hm
  | openHole q => cases q <;> cases hm

theorem of_expression (h : Effect mode .comment taken t) (hx : mode.scansExpressions = true) :
    (taken = blockCommentOpen ∧ t = .push .blockComment) ∨
      (taken = lineCommentOpen ∧ t = .push .lineComment) := by
  generalize hk : TokenKind.comment = kind at h
  cases h with
  | content _ hc =>
      subst hk
      cases mode with
      | topLevel | doubleInterpolation | singleInterpolation | braces =>
          exact absurd hc (by decide)
      | _ => cases hx
  | openComment => exact .inl ⟨rfl, rfl⟩
  | openLine => exact .inr ⟨rfl, rfl⟩
  | nestComment | unnestComment => cases hx
  | _ => cases hk

theorem of_blockComment (h : Effect mode kind taken t) (hm : mode = .blockComment) :
    kind = .comment ∧ (t = .stay ∨ t = .nest ∨ taken = blockCommentClose ∧ t = .unnest) := by
  cases h with
  | content _ hc =>
      subst hm
      exact ⟨List.mem_singleton.mp hc, .inl rfl⟩
  | nestComment => exact ⟨rfl, .inr (.inl rfl)⟩
  | unnestComment => exact ⟨rfl, .inr (.inr ⟨rfl, rfl⟩)⟩
  | openComment hx | openLine hx | openString _ hx | openArgsof hx | openBrace hx =>
      rw [hm] at hx
      cases hx
  | openHole q | closeHole q | closeString q => cases q <;> cases hm
  | closeBrace | endLine | nestParens | unnestParens => cases hm

theorem of_lineComment (h : Effect mode kind taken t) (hm : mode = .lineComment) :
    (kind = .comment ∨ kind = .pragma) ∧ t = .stay ∨ kind = .plain ∧ t = .pop := by
  cases h with
  | content _ hc =>
      subst hm
      exact .inl ⟨by simpa [contents] using hc, rfl⟩
  | endLine => exact .inr ⟨rfl, rfl⟩
  | openComment hx | openLine hx | openString _ hx | openArgsof hx | openBrace hx =>
      rw [hm] at hx
      cases hx
  | openHole q | closeHole q | closeString q => cases q <;> cases hm
  | closeBrace | nestComment | unnestComment | nestParens | unnestParens => cases hm

end Effect

/-- The second state is in the block comment that the first one was about to open. -/
structure InBlockComment (s u : Scanner) : Prop where
  mode : u.stack.top.mode = .blockComment
  serial : u.stack.top.serial = s.stack.pushes + 1
  below : u.stack.below = s.stack.frames
  pushes : u.stack.pushes = s.stack.pushes + 1

theorem inBlockComment_push {s t : Scanner} (h : t.stack = s.stack.push .blockComment) :
    InBlockComment s t := by
  constructor <;> rw [h] <;> rfl

theorem encloses_of_isLeaf {mode : Mode} (h : mode.isLeaf = true) :
    grammar.encloses mode = true := by
  cases mode with
  | lineComment | blockComment | annotationBlock => rfl
  | _ => cases h

theorem construct_in_leaf {s t : Scanner} {p : Piece} (hm : s.stack.top.mode.isLeaf = true)
    (hn : s.next? grammar = some (p, t)) : p.construct = some s.stack.top.serial := by
  obtain ⟨_, _, _, _, _, he, rfl, _⟩ := exists_effect hn
  exact Grammar.construct?_inside (encloses_of_isLeaf hm) (he.ne_push hm)

/-- In a block comment a step leaves another piece of it, and stays there or closes it. -/
theorem InBlockComment.next {s u v : Scanner} {p : Piece} (h : InBlockComment s u)
    (hn : u.next? grammar = some (p, v)) :
    p.token.kind = .comment ∧ p.construct = some (s.stack.pushes + 1) ∧
      v.stack.pushes = s.stack.pushes + 1 ∧
      (InBlockComment s v ∨
        p.token.text = blockCommentClose ∧ v.stack.frames = s.stack.frames) := by
  have hconstruct := construct_in_leaf (h.mode ▸ rfl) hn
  rw [h.serial] at hconstruct
  obtain ⟨kind, taken, rest, t, _, he, rfl, rfl⟩ := exists_effect hn
  obtain ⟨rfl, ht⟩ := he.of_blockComment h.mode
  rcases ht with rfl | rfl | ⟨rfl, rfl⟩
  · exact ⟨rfl, hconstruct, h.pushes, .inl ⟨h.mode, h.serial, h.below, h.pushes⟩⟩
  · exact ⟨rfl, hconstruct, h.pushes, .inl ⟨h.mode, h.serial, h.below, h.pushes⟩⟩
  · cases u.stack.unnest_eq with
    | inl hu =>
        have hpop : u.stack.pop.frames = s.stack.frames := by
          rw [ModeStack.frames_pop (h.below ▸ List.cons_ne_nil _ _), h.below]
        refine ⟨rfl, hconstruct, ?_, .inr ⟨rfl, ?_⟩⟩
        · exact (congrArg ModeStack.pushes hu).trans (u.stack.pushes_pop.trans h.pushes)
        · exact (congrArg ModeStack.frames hu).trans hpop
    | inr hu =>
        obtain ⟨depth, hu⟩ := hu
        have hinside : InBlockComment s ⟨u.offset, u.rest, u.stack.unnest⟩ := by
          constructor <;> rw [hu]
          · exact h.mode
          · exact h.serial
          · exact h.below
          · exact h.pushes
        exact ⟨rfl, hconstruct, hinside.pushes, .inl ⟨hinside.mode, hinside.serial, hinside.below,
          hinside.pushes⟩⟩

/-- In a block comment the sign that ends it cannot be split, nor can other pieces end with a part
of it. -/
theorem text_of_getLast? {s t : Scanner} {p : Piece} {c : Char}
    (hm : s.stack.top.mode = .blockComment) (hn : s.next? grammar = some (p, t))
    (hc : p.token.text.getLast? = some c) (hsign : c ∈ blockCommentClose) :
    p.token.text = [c] ∨ p.token.text = blockCommentClose := by
  obtain ⟨rule, hr, count, hcount, rfl, rfl⟩ := exists_rule hn
  rw [hm] at hr
  simp only [rules, blockCommentRules, List.mem_cons, List.not_mem_nil, or_false] at hr
  rcases hr with rfl | rfl | rfl | rfl
  · rw [Pattern.take_of_literal hcount] at hc
    obtain rfl : '<' = c := Option.some.inj hc
    exact absurd hsign (by decide)
  · exact .inr (Pattern.take_of_literal hcount)
  · rw [Pattern.take_of_run rfl hcount] at hc
    have hin := List.all_eq_true.mp List.all_takeWhile c (List.mem_of_getLast? hc)
    rcases List.mem_pair.mp hsign with rfl | rfl <;> exact absurd hin (by decide)
  · left
    cases hrest : s.rest with
    | nil => simp [hrest] at hc
    | cons x rest =>
        rw [hrest] at hc hcount
        obtain rfl : 1 = count := Option.some.inj hcount
        exact congrArg (fun y => [y]) (Option.some.inj hc)

theorem close_not_split {s t u : Scanner} {p q : Piece} (hm : s.stack.top.mode = .blockComment)
    (hp : s.next? grammar = some (p, t)) (hq : t.next? grammar = some (q, u))
    (hpt : p.token.text = ['>']) : q.token.text ≠ ['#'] := by
  intro hqt
  have hrest : s.rest = blockCommentClose ++ u.rest := by
    rw [(Scanner.next?_takes hp).2.1, (Scanner.next?_takes hq).2.1, hpt, hqt]
    rfl
  have htext := Scanner.text_next hp
  rw [hm, hrest, move_blockCommentClose, hpt] at htext
  cases htext

theorem scansExpressions_pop {s : ModeStack} (hs : WellNested s.frames)
    (hm : s.top.mode.scansExpressions = true → s.top.mode = .braces) :
    s.pop.top.mode.scansExpressions = true := by
  have hb : InExpression s.below := by
    cases hx : s.top.mode.scansExpressions with
    | false => exact (hs.under_construct hx).1
    | true => exact (hs.inExpression hx).under_brace (hm hx)
  have hp := ModeStack.frames_pop hb.ne_nil
  rw [← hp] at hb
  exact hb.scansExpressions

/-- What closes in a construct without others in it, and leaves the scan there, is nested in it. -/
theorem unnest_of_isLeaf {s : ModeStack} (hs : WellNested s.frames)
    (hx : s.top.mode.scansExpressions = false) (hm : s.unnest.top.mode.isLeaf = true) :
    ∃ depth, s.unnest = { s with top := { s.top with depth := depth } } := by
  refine s.unnest_eq.resolve_left fun hpop => ?_
  rw [hpop] at hm
  refine absurd hm (Mode.not_isLeaf (scansExpressions_pop hs fun h => ?_))
  cases hx.symm.trans h

/-- A step that ends in a construct without others in it leaves a piece of that construct. -/
theorem construct?_of_leaf {s : ModeStack} {kind : TokenKind} {taken : List Char} {t : Transition}
    (hs : WellNested s.frames) (he : Effect s.top.mode kind taken t)
    (hm : (s.apply t).top.mode.isLeaf = true) :
    grammar.construct? s t = some (s.apply t).top.serial ∧
      kind ∈ contents (s.apply t).top.mode := by
  generalize hmode : s.top.mode = mode at he
  cases he with
  | content _ hc => exact ⟨Grammar.construct?_inside (encloses_of_isLeaf hm) nofun, hmode ▸ hc⟩
  | openComment | openLine | openArgsof =>
      exact ⟨Grammar.construct?_push rfl s, List.mem_cons_self⟩
  | openBrace => cases hm
  | openString q | openHole q => cases q <;> cases hm
  | closeBrace => exact absurd hm (Mode.not_isLeaf (scansExpressions_pop hs fun _ => hmode))
  | endLine => exact absurd hm (Mode.not_isLeaf (scansExpressions_pop hs (hmode ▸ nofun)))
  | closeString q =>
      refine absurd hm (Mode.not_isLeaf (scansExpressions_pop hs ?_))
      rw [hmode]
      cases q <;> exact nofun
  | closeHole q =>
      change (s.popTo q.string).top.mode.isLeaf = true at hm
      rw [(hs.popTo_hole hmode).2] at hm
      cases q <;> cases hm
  | nestComment | nestParens =>
      refine ⟨Grammar.construct?_inside (hmode ▸ rfl) nofun, ?_⟩
      change _ ∈ contents s.top.mode
      rw [hmode]
      exact List.mem_cons_self
  | unnestComment | unnestParens =>
      obtain ⟨depth, hu⟩ := unnest_of_isLeaf hs (hmode ▸ rfl) hm
      change grammar.construct? s .unnest = some s.unnest.top.serial ∧
        _ ∈ contents s.unnest.top.mode
      rw [hu]
      refine ⟨Grammar.construct?_inside (hmode ▸ rfl) nofun, ?_⟩
      change _ ∈ contents s.top.mode
      rw [hmode]
      exact List.mem_cons_self

/-- In a construct without others in it, the piece before belongs to the construct as well. -/
theorem exists_before_leaf {text : List Char} {first : List (Piece × Scanner)} {s : Scanner}
    (ht : Scanner.Trace grammar (.start text) first)
    (hs : (Scanner.start text).stateAfter first = s) (hm : s.stack.top.mode.isLeaf = true) :
    ∃ init p, first = init ++ [(p, s)] ∧ p.construct = some s.stack.top.serial ∧
      p.token.kind ∈ contents s.stack.top.mode := by
  rcases List.eq_nil_or_concat' first with rfl | ⟨init, ⟨p, t⟩, rfl⟩
  · subst hs
    cases hm
  · obtain ⟨hinit, hlast⟩ := Scanner.trace_append.mp ht
    rw [Scanner.stateAfter_append, Scanner.stateAfter_cons, Scanner.stateAfter_nil] at hs
    subst hs
    cases hlast with
    | step hn _ =>
        have hnested := hinit.preserves wellNested_next (wellNested_start text)
        obtain ⟨_, _, _, _, _, he, hp, rfl⟩ := exists_effect hn
        refine ⟨init, p, rfl, ?_⟩
        rw [hp]
        exact construct?_of_leaf hnested he hm

/-- Outside of comments, a comment piece opens one, and names a frame of its own. -/
theorem opensComment_of_expression {s t : Scanner} {p : Piece}
    (hx : s.stack.top.mode.scansExpressions = true) (hn : s.next? grammar = some (p, t))
    (hk : p.token.kind = .comment) :
    p.construct = some (s.stack.pushes + 1) ∧
      (p.token.text = blockCommentOpen ∧ InBlockComment s t ∨
        p.token.text = lineCommentOpen ∧ t.stack = s.stack.push .lineComment) := by
  obtain ⟨kind, taken, rest, transition, _, he, rfl, rfl⟩ := exists_effect hn
  dsimp only at hk ⊢
  subst hk
  cases he.of_expression hx with
  | inl hb =>
      obtain ⟨rfl, rfl⟩ := hb
      exact ⟨Grammar.construct?_push rfl s.stack, .inl ⟨rfl, inBlockComment_push rfl⟩⟩
  | inr hl =>
      obtain ⟨rfl, rfl⟩ := hl
      exact ⟨Grammar.construct?_push rfl s.stack, .inr ⟨rfl, rfl⟩⟩

theorem construct_eq_of_joins {p q : Piece} (h : p.joins q = true)
    (hp : p.token.kind = .comment) : q.token.kind = .comment ∧ q.construct = p.construct := by
  have hq := (Token.joins_iff.mp h).1.symm.trans hp
  exact ⟨hq, ((Token.joins_of_kind (.inl rfl) hq).mp h).2.2.symm⟩

/-- What follows a closed block comment is no part of it, even if it is a comment. -/
theorem not_joins_closed {s w u : Scanner} {p q : Piece} (hs : InExpression s.stack.frames)
    (hframes : w.stack.frames = s.stack.frames) (hpushes : w.stack.pushes = s.stack.pushes + 1)
    (hp : p.token.kind = .comment) (hpc : p.construct = some (s.stack.pushes + 1))
    (hn : w.next? grammar = some (q, u)) : p.joins q = false := by
  have hx : w.stack.top.mode.scansExpressions = true := by
    rw [← hframes] at hs
    exact hs.scansExpressions
  cases hj : p.joins q with
  | false => rfl
  | true =>
      obtain ⟨hq, hqc⟩ := construct_eq_of_joins hj hp
      have hnew := (opensComment_of_expression hx hn hq).1
      rw [hqc, hpc, hpushes] at hnew
      exact absurd (Option.some.inj hnew) (ModeStack.serial_ne_next _)

/-- The steps that a block comment's token is made of, after the first of them: up to the sign that
closes the comment, or all steps that are left. -/
theorem InBlockComment.run {s v : Scanner} {q : Piece} {run back : List (Piece × Scanner)}
    (hs : InExpression s.stack.frames) (hv : InBlockComment s v)
    (ht : Scanner.Trace grammar v (run ++ back)) (hq : q.token.kind = .comment)
    (hqc : q.construct = some (s.stack.pushes + 1))
    (hjoined : (q :: run.map Prod.fst).IsChain fun p r => p.joins r = true)
    (hstops : ∀ p ∈ (q :: run.map Prod.fst).getLast?, ∀ r ∈ (back.map Prod.fst).head?,
      p.joins r = false) :
    (∃ inner closer, run = inner ++ [closer] ∧ (∀ step ∈ inner, InBlockComment s step.2) ∧
      closer.1.token.text = blockCommentClose ∧ closer.2.stack.frames = s.stack.frames) ∨
      back = [] ∧ ∀ step ∈ run, InBlockComment s step.2 := by
  -- The piece before the run is kept as a variable: what has to be shown of the rest of a run is
  -- that it is joined to the piece which the step before has given.
  induction run generalizing v q with
  | nil =>
      cases back with
      | nil => exact .inr ⟨rfl, by simp⟩
      | cons x back =>
          cases ht with
          | step hn _ =>
              obtain ⟨hk, hc, _, _⟩ := hv.next hn
              have hj := hstops q rfl _ rfl
              rw [Token.joins_of_construct (.inl hq) (hk.trans hq.symm) hqc hc] at hj
              cases hj
  | cons x run ih =>
      cases ht with
      | @step _ w p _ hn ht =>
          obtain ⟨hk, hc, hpushes, hw⟩ := hv.next hn
          rw [List.map_cons, List.isChain_cons_cons] at hjoined
          cases hw with
          | inl hw =>
              have hlast : ∀ r ∈ (p :: run.map Prod.fst).getLast?,
                  r ∈ (q :: p :: run.map Prod.fst).getLast? := by
                intro r hr
                rwa [List.getLast?_cons_cons]
              cases ih hw ht hk hc hjoined.2 (fun r hr => hstops r (hlast r hr)) with
              | inl hclosed =>
                  obtain ⟨inner, closer, rfl, hinner, hclose, hframes⟩ := hclosed
                  refine .inl ⟨(p, w) :: inner, closer, rfl, ?_, hclose, hframes⟩
                  exact List.forall_mem_cons.mpr ⟨hw, hinner⟩
              | inr hopen => exact .inr ⟨hopen.1, List.forall_mem_cons.mpr ⟨hw, hopen.2⟩⟩
          | inr hclosed =>
              cases run with
              | nil => exact .inl ⟨[], (p, w), rfl, by simp, hclosed⟩
              | cons y run =>
                  -- A step further would open a construct of its own.
                  cases ht with
                  | step hny _ =>
                      have hj := (List.isChain_cons_cons.mp hjoined.2).1
                      rw [not_joins_closed hs hclosed.2 hpushes hk hc hny] at hj
                      cases hj

end Liquidsoap
end LiquidsoapHighlight
