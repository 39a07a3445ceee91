import LiquidsoapHighlight.Proofs.Liquidsoap.Comment
import LiquidsoapHighlight.Proofs.Token.MadeOf
import LiquidsoapHighlight.Relevance

/-!
What comments say about the language of a text. The evidence is taken from a token's first and last
two characters alone. Every closed block comment is distinctive, and so are two kinds of tokens that
only look like one.
-/

namespace LiquidsoapHighlight
namespace Liquidsoap

/-- Steps from the sign that opens a block comment on, after each of which it is still open. -/
structure OpenComment (s : Scanner) (run : List (Piece × Scanner)) : Prop where
  sign : ∀ step ∈ run.head?, step.1.token.text = blockCommentOpen
  nonempty : run ≠ []
  inside : ∀ step ∈ run, InBlockComment s step.2

/-- The token is one whole block comment: it begins with the sign that opens the comment, and ends
with the one that pops the comment's frame. -/
def IsClosedBlockComment (text : List Char) (t : Token) : Prop :=
  ∃ first run closer, Token.MadeOf grammar text t first (run ++ [closer]) ∧
    OpenComment ((Scanner.start text).stateAfter first) run ∧
    closer.1.token.text = blockCommentClose ∧
    closer.2.stack.frames = ((Scanner.start text).stateAfter first).stack.frames

/-- The token has the signs of a closed block comment at its ends, but is none. -/
inductive LooksClosed (text : List Char) (t : Token) : Prop where
  /-- A block comment that is open at the end of the text, right after a comment nested in it. -/
  | nested {first run : List (Piece × Scanner)} (closer : Piece × Scanner) :
      Token.MadeOf grammar text t first (run ++ [closer]) →
      OpenComment ((Scanner.start text).stateAfter first) (run ++ [closer]) →
      Scanner.steps grammar text = first ++ (run ++ [closer]) →
      closer.1.token.text = blockCommentClose → LooksClosed text t
  /-- What follows a doc tag in a line comment. -/
  | afterTag {first run : List (Piece × Scanner)} (tag : Piece × Scanner) :
      Token.MadeOf grammar text t (first ++ [tag]) run → tag.1.token.kind = .pragma →
      tag.2.stack.top.mode = .lineComment → blockCommentOpen <+: t.text →
      blockCommentClose <:+ t.text → LooksClosed text t

inductive CommentShape (text : List Char) (t : Token) : Prop where
  | closed : IsClosedBlockComment text t → CommentShape text t
  | unclosed {first run : List (Piece × Scanner)} : Token.MadeOf grammar text t first run →
      OpenComment ((Scanner.start text).stateAfter first) run →
      Scanner.steps grammar text = first ++ run → CommentShape text t
  | line {first run : List (Piece × Scanner)} (opener : Piece × Scanner) :
      Token.MadeOf grammar text t first (opener :: run) →
      opener.1.token.text = lineCommentOpen → opener.2.stack.top.mode = .lineComment →
      ¬ blockCommentOpen <+: t.text → CommentShape text t
  | afterTag {first run : List (Piece × Scanner)} (tag : Piece × Scanner) :
      Token.MadeOf grammar text t (first ++ [tag]) run → tag.1.token.kind = .pragma →
      tag.2.stack.top.mode = .lineComment → CommentShape text t

theorem wellNested_of_madeOf {text : List Char} {t : Token} {first run : List (Piece × Scanner)}
    (h : Token.MadeOf grammar text t first run) :
    WellNested ((Scanner.start text).stateAfter first).stack.frames :=
  h.trace.1.preserves wellNested_next (wellNested_start text)

/-- A comment token that begins inside a comment begins right after a doc tag. -/
theorem exists_tag {first : List (Piece × Scanner)} {text : List Char} {s : Scanner} {p : Piece}
    (ht : Scanner.Trace grammar (.start text) first)
    (hs : (Scanner.start text).stateAfter first = s)
    (hm : s.stack.top.mode.isComment = true)
    (hp : p.token.kind = .comment) (hpc : p.construct = some s.stack.top.serial)
    (hstarts : ∀ q ∈ (first.map Prod.fst).getLast?, q.joins p = false) :
    ∃ init tag, first = init ++ [tag] ∧ tag.2 = s ∧ tag.1.token.kind = .pragma ∧
      s.stack.top.mode = .lineComment := by
  obtain ⟨init, q, rfl, hqc, hkind⟩ := exists_before_leaf ht hs (Mode.isLeaf_of_isComment hm)
  have hcomment : q.token.kind ≠ .comment := by
    intro hq
    have hj := hstarts q (by simp)
    rw [Token.joins_of_construct (.inl hq) (hp.trans hq.symm) hqc hpc] at hj
    cases hj
  refine ⟨init, (q, s), rfl, rfl, ?_⟩
  cases hmode : s.stack.top.mode with
  | lineComment =>
      rw [hmode] at hkind
      exact ⟨(List.mem_pair.mp hkind).resolve_left hcomment, rfl⟩
  | blockComment =>
      rw [hmode] at hkind
      exact absurd (List.mem_singleton.mp hkind) hcomment
  | _ =>
      rw [hmode] at hm
      cases hm

theorem blockComment_shape {text : List Char} {t : Token} {first rest back : List (Piece × Scanner)}
    {s u : Scanner} {p : Piece} (hs : (Scanner.start text).stateAfter first = s)
    (hsteps : Scanner.steps grammar text = first ++ ((p, u) :: rest ++ back))
    (hmade : Token.MadeOf grammar text t first ((p, u) :: rest))
    (hmax : Token.IsMaximalRun (first.map Prod.fst) (((p, u) :: rest).map Prod.fst)
      (back.map Prod.fst)) (hnested : InExpression s.stack.frames)
    (hrest : Scanner.Trace grammar u (rest ++ back)) (hp : p.token.kind = .comment)
    (hpc : p.construct = some (s.stack.pushes + 1)) (hsign : p.token.text = blockCommentOpen)
    (hin : InBlockComment s u) : CommentShape text t := by
  subst hs
  have hopen : ∀ {inner : List (Piece × Scanner)},
      (∀ step ∈ inner, InBlockComment ((Scanner.start text).stateAfter first) step.2) →
      OpenComment ((Scanner.start text).stateAfter first) ((p, u) :: inner) := by
    intro inner hinner
    refine ⟨?_, List.cons_ne_nil _ _, List.forall_mem_cons.mpr ⟨hin, hinner⟩⟩
    intro step hstep
    obtain rfl := Option.some.inj hstep
    exact hsign
  cases hin.run hnested hrest hp hpc hmax.joined hmax.stops with
  | inl hclosed =>
      obtain ⟨inner, closer, rfl, hinner, hends⟩ := hclosed
      exact .closed ⟨first, (p, u) :: inner, closer, hmade, hopen hinner, hends⟩
  | inr hlast =>
      obtain ⟨rfl, hinner⟩ := hlast
      rw [List.append_nil] at hsteps
      exact .unclosed hmade (hopen hinner) hsteps

theorem comment_shape {text : List Char} {t : Token} (h : t ∈ Token.scan grammar text)
    (hk : t.kind = .comment) : CommentShape text t := by
  obtain ⟨first, run, back, hsteps, hmade, hmax⟩ := Token.exists_madeOf h
  obtain ⟨⟨p, u⟩, rest, rfl, hp, _, htext⟩ := Token.exists_of_ofSteps hmade.2
  rw [hk] at hp
  have hnested := wellNested_of_madeOf hmade
  have htrace := Scanner.trace_steps grammar text
  rw [hsteps, Scanner.trace_append] at htrace
  obtain ⟨hfirst, hrun⟩ := htrace
  generalize hs : (Scanner.start text).stateAfter first = s at hnested hrun
  have hfront : t.text <+: s.rest := by
    rw [htext, (Scanner.trace_append.mp hrun).1.rest_eq]
    exact List.prefix_append _ _
  cases hrun with
  | step hn hrest =>
      obtain ⟨kind, _, _, _, _, he, hpiece, _⟩ := exists_effect hn
      obtain rfl : TokenKind.comment = kind := by rw [hp, hpiece]
      cases he.mode_of_comment with
      | inl hx =>
          obtain ⟨hpc, hopens⟩ := opensComment_of_expression hx hn hp.symm
          cases hopens with
          | inl hblock =>
              exact blockComment_shape hs hsteps hmade hmax (hnested.inExpression hx) hrest
                hp.symm hpc hblock.1 hblock.2
          | inr hline =>
              refine .line (p, u) hmade hline.1 (by rw [hline.2]; rfl) ?_
              intro hopen
              exact not_blockComment_of_lineComment hx hn hline.1 (hopen.trans hfront)
      | inr hm =>
          obtain ⟨init, tag, rfl, rfl, htag, hline⟩ := exists_tag hfirst hs hm hp.symm
            (construct_in_leaf (Mode.isLeaf_of_isComment hm) hn)
            (fun q hq => hmax.starts q hq p rfl)
          exact .afterTag tag hmade htag hline

namespace OpenComment
variable {s : Scanner} {run : List (Piece × Scanner)} {last : Piece × Scanner}

theorem front (h : OpenComment s (run ++ [last])) (hne : run ≠ []) : OpenComment s run := by
  refine ⟨?_, hne, fun step hstep => h.inside step (List.mem_append_left _ hstep)⟩
  intro step hstep
  apply h.sign
  rw [List.head?_append, Option.mem_def.mp hstep]
  rfl

theorem mode_stateAfter (h : OpenComment s run) :
    (s.stateAfter run).stack.top.mode = .blockComment := by
  rcases List.eq_nil_or_concat' run with rfl | ⟨init, ⟨q, v⟩, rfl⟩
  · exact absurd rfl h.nonempty
  · rw [Scanner.stateAfter_append, Scanner.stateAfter_cons, Scanner.stateAfter_nil]
    exact (h.inside (q, v) (by simp)).mode

/-- Where the text so far ends with a character of the closing sign, the last step has taken that
character alone, or the whole sign. -/
theorem text_last (h : OpenComment s (run ++ [last]))
    (ht : Scanner.Trace grammar s (run ++ [last])) {c : Char} (hsign : c ∈ blockCommentClose)
    (hc : (Scanner.taken (run ++ [last])).getLast? = some c) :
    (s.stateAfter run).stack.top.mode = .blockComment ∧
      (last.1.token.text = [c] ∨ last.1.token.text = blockCommentClose) := by
  rw [Scanner.taken_concat] at hc
  by_cases hrun : run = []
  · subst hrun
    rw [h.sign last rfl] at hc
    obtain rfl : '<' = c := Option.some.inj hc
    exact absurd hsign (by decide)
  · have hm := (h.front hrun).mode_stateAfter
    obtain ⟨p, t⟩ := last
    cases (Scanner.trace_append.mp ht).2 with
    | step hn _ =>
        rw [List.getLast?_append_of_ne_nil _ (Scanner.next?_takes hn).1] at hc
        exact ⟨hm, text_of_getLast? hm hn hc hsign⟩

/-- If the text so far ends with the closing sign, the last step has taken it. -/
theorem exists_close (h : OpenComment s run) (ht : Scanner.Trace grammar s run)
    (hclose : blockCommentClose <:+ Scanner.taken run) :
    ∃ init closer, run = init ++ [closer] ∧ closer.1.token.text = blockCommentClose := by
  rcases List.eq_nil_or_concat' run with rfl | ⟨init, last, rfl⟩
  · exact absurd rfl h.nonempty
  · refine ⟨init, last, rfl, ?_⟩
    obtain ⟨front, hfront⟩ := hclose
    have hlast : (Scanner.taken (init ++ [last])).getLast? = some '#' := by
      rw [← hfront]
      simp [blockCommentClose]
    obtain ⟨_, hone | hwhole⟩ := h.text_last ht (by decide) hlast
    -- Otherwise the step before has taken the first character of a sign that it saw whole.
    · have hinit : front ++ ['>'] = Scanner.taken init := by
        rw [Scanner.taken_concat, hone] at hfront
        apply List.append_cancel_right
        rw [List.append_assoc]
        exact hfront
      have hne : init ≠ [] := by
        rintro rfl
        cases front <;> cases hinit
      obtain ⟨mid, ⟨q, v⟩, rfl⟩ := (List.eq_nil_or_concat' init).resolve_left hne
      obtain ⟨htinit, htlast⟩ := Scanner.trace_append.mp ht
      have hprev : (Scanner.taken (mid ++ [(q, v)])).getLast? = some '>' := by
        rw [← hinit]
        simp
      obtain ⟨hm, hq | hq⟩ := (h.front hne).text_last htinit (by decide) hprev
      · rw [Scanner.stateAfter_append, Scanner.stateAfter_cons, Scanner.stateAfter_nil] at htlast
        cases (Scanner.trace_append.mp htinit).2 with
        | step hnq _ =>
            cases htlast with
            | step hn _ => exact absurd hone (close_not_split hm hnq hn hq)
      · rw [Scanner.taken_concat, hq] at hprev
        simp [blockCommentClose] at hprev
    · exact hwhole

end OpenComment

theorem evidence?_comment {t : Token} (hk : t.kind = .comment) :
    Relevance.evidence? t =
      if Relevance.isClosedComment t.text then some (.distinctive 2) else none := by
  simp [Relevance.evidence?, hk]

theorem isClosedComment_iff {text : List Char} : Relevance.isClosedComment text = true ↔
    blockCommentOpen <+: text ∧ blockCommentClose <:+ text := by
  rw [Relevance.isClosedComment, Bool.and_eq_true, List.isPrefixOf_iff_prefix,
    List.isSuffixOf_iff_suffix]

theorem signs_of_openComment {text : List Char} {t : Token} {first run : List (Piece × Scanner)}
    {closer : Piece × Scanner} {s : Scanner}
    (hmade : Token.MadeOf grammar text t first (run ++ [closer])) (hopen : OpenComment s run)
    (hclose : closer.1.token.text = blockCommentClose) :
    blockCommentOpen <+: t.text ∧ blockCommentClose <:+ t.text := by
  have htext := hmade.text_eq
  rw [Scanner.taken_concat, hclose] at htext
  refine ⟨?_, htext ▸ List.suffix_append _ _⟩
  obtain ⟨opener, inner, rfl⟩ := List.exists_cons_of_ne_nil hopen.nonempty
  have hsign := hopen.sign opener rfl
  rw [htext, Scanner.taken, List.flatMap_cons, hsign, List.append_assoc]
  exact List.prefix_append _ _

theorem LooksClosed.signs {text : List Char} {t : Token} (h : LooksClosed text t) :
    blockCommentOpen <+: t.text ∧ blockCommentClose <:+ t.text := by
  cases h with
  | @nested _ run closer hmade hopen _ hclose =>
      by_cases hrun : run = []
      · subst hrun
        rw [hopen.sign closer rfl] at hclose
        cases hclose
      · exact signs_of_openComment hmade (hopen.front hrun) hclose
  | afterTag _ _ _ _ hopens hcloses => exact ⟨hopens, hcloses⟩

theorem LooksClosed.not_closed {text : List Char} {t : Token} (h : LooksClosed text t) :
    ¬ IsClosedBlockComment text t := by
  rintro ⟨first, run, closer, hmade, hopen, _, hframes⟩
  cases h with
  | @nested first' run' closer' hmade' hopen' =>
      obtain ⟨rfl, hrun⟩ := hmade.unique hmade'
      obtain ⟨_, hsame⟩ := List.append_inj' hrun rfl
      obtain rfl := (List.cons.inj hsame).1
      have hin := hopen'.inside closer (by simp)
      rw [← hin.below] at hframes
      exact absurd hframes (List.cons_ne_self _ _)
  | @afterTag first' run' tag hmade' _ hline =>
      obtain ⟨rfl, _⟩ := hmade.unique hmade'
      obtain ⟨p, u⟩ := tag
      have htrace := hmade.trace.2
      rw [Scanner.stateAfter_append, Scanner.stateAfter_cons, Scanner.stateAfter_nil]
        at hopen htrace
      obtain ⟨⟨q, v⟩, inner, rfl⟩ := List.exists_cons_of_ne_nil hopen.nonempty
      have hpushes := (hopen.inside (q, v) List.mem_cons_self).pushes
      cases htrace with
      | step hn _ =>
          -- A step in a line comment pushes no frame.
          obtain ⟨_, _, _, transition, _, he, _, rfl⟩ := exists_effect hn
          have hsame : (u.stack.apply transition).pushes = u.stack.pushes := by
            cases he.of_lineComment hline with
            | inl hstay => rw [hstay.2]; rfl
            | inr hpop => rw [hpop.2]; exact u.stack.pushes_pop
          exact absurd (UInt32.left_eq_add.mp (hsame.symm.trans hpushes)) (by decide)

/-- A comment token is distinctive exactly if it is a closed block comment, or looks like one
without being one. -/
theorem comment_evidence {text : List Char} {t : Token} (h : t ∈ Token.scan grammar text)
    (hk : t.kind = .comment) :
    (Relevance.evidence? t = some (.distinctive 2) ∨ Relevance.evidence? t = none) ∧
      (Relevance.evidence? t = some (.distinctive 2) ↔
        IsClosedBlockComment text t ∨ LooksClosed text t) ∧
      ¬ (IsClosedBlockComment text t ∧ LooksClosed text t) := by
  have hsigns : Relevance.evidence? t = some (.distinctive 2) ↔
      blockCommentOpen <+: t.text ∧ blockCommentClose <:+ t.text := by
    rw [evidence?_comment hk, ← isClosedComment_iff]
    simp
  refine ⟨?_, ?_, fun hboth => hboth.2.not_closed hboth.1⟩
  · rw [evidence?_comment hk]
    split
    · exact .inl rfl
    · exact .inr rfl
  · rw [hsigns]
    constructor
    · rintro ⟨hopens, hcloses⟩
      cases comment_shape h hk with
      | closed hclosed => exact .inl hclosed
      | unclosed hmade hopen hsteps =>
          have htrace := hmade.trace.2
          rw [hmade.text_eq] at hcloses
          obtain ⟨init, closer, rfl, hclose⟩ := hopen.exists_close htrace hcloses
          exact .inr (.nested closer hmade hopen hsteps hclose)
      | line _ _ _ _ hnot => exact absurd hopens hnot
      | afterTag tag hmade htag hline =>
          exact .inr (.afterTag tag hmade htag hline hopens hcloses)
    · rintro (⟨first, run, closer, hmade, hopen, hclose, _⟩ | hlooks)
      · exact signs_of_openComment hmade hopen hclose
      · exact hlooks.signs

theorem closed_comment_evidence :
    Relevance.evidence? ⟨.comment, 0, "#<>#".toList⟩ = some (.distinctive 2) ∧
      IsClosedBlockComment "#<>#".toList ⟨.comment, 0, "#<>#".toList⟩ := by
  have hscan : (⟨.comment, 0, "#<>#".toList⟩ : Token) ∈ Token.scan grammar "#<>#".toList := by
    decide +kernel
  have hdistinctive : Relevance.evidence? ⟨.comment, 0, "#<>#".toList⟩ = some (.distinctive 2) := by
    decide
  obtain ⟨_, hiff, _⟩ := comment_evidence hscan rfl
  refine ⟨hdistinctive, (hiff.mp hdistinctive).resolve_right ?_⟩
  rintro (⟨closer, _, hopen, hsteps, _⟩ | ⟨tag, ⟨⟨back, hsteps⟩, _⟩, htag, _⟩)
  · have hlast : (Scanner.steps grammar "#<>#".toList).getLast?.map
        (fun step => step.2.stack.below) = some [] := by
      decide +kernel
    rw [hsteps, ← List.append_assoc, List.getLast?_concat, Option.map_some,
      (hopen.inside closer (by simp)).below] at hlast
    cases hlast
  · have hkinds : ∀ step ∈ Scanner.steps grammar "#<>#".toList,
        step.1.token.kind ≠ .pragma := by
      decide +kernel
    rw [hsteps] at hkinds
    exact hkinds tag (by simp) htag

/-- A block comment that is open at the end of the text, and what follows a doc tag in a line
comment, are distinctive as well where they have the signs at their ends. -/
theorem unclosed_comment_evidence :
    (∃ t ∈ Token.scan grammar "#<#<>#".toList, t.kind = .comment ∧
      Relevance.evidence? t = some (.distinctive 2) ∧ ¬ IsClosedBlockComment "#<#<>#".toList t) ∧
    ∃ t ∈ Token.scan grammar "#@param#<>#".toList, t.kind = .comment ∧
      Relevance.evidence? t = some (.distinctive 2) ∧
      ¬ IsClosedBlockComment "#@param#<>#".toList t := by
  refine ⟨⟨⟨.comment, 0, "#<#<>#".toList⟩, by decide +kernel, rfl, by decide, ?_⟩,
    ⟨⟨.comment, 7, "#<>#".toList⟩, by decide +kernel, rfl, by decide, ?_⟩⟩
  · rintro ⟨first, run, closer, ⟨⟨back, hsteps⟩, _⟩, hopen, _, hframes⟩
    have hbelow : ∀ step ∈ Scanner.steps grammar "#<#<>#".toList,
        step.2.stack.below.length = 1 := by
      decide +kernel
    rw [hsteps] at hbelow
    obtain ⟨opener, inner, rfl⟩ := List.exists_cons_of_ne_nil hopen.nonempty
    have hopener := hbelow opener (by simp)
    have hcloser := hbelow closer (by simp)
    rw [(hopen.inside opener List.mem_cons_self).below, ← hframes, ModeStack.frames,
      List.length_cons] at hopener
    omega
  · rintro ⟨first, run, closer, ⟨⟨back, hsteps⟩, _⟩, hopen, _⟩
    have hmodes : ∀ step ∈ Scanner.steps grammar "#@param#<>#".toList,
        step.2.stack.top.mode ≠ .blockComment := by
      decide +kernel
    rw [hsteps] at hmodes
    obtain ⟨opener, inner, rfl⟩ := List.exists_cons_of_ne_nil hopen.nonempty
    exact hmodes opener (by simp) (hopen.inside opener List.mem_cons_self).mode

end Liquidsoap
end LiquidsoapHighlight
