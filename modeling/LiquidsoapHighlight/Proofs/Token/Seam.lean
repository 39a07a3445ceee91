import LiquidsoapHighlight.Proofs.Token.Joining

/-!
The tokens of pieces that come in two parts. Where the second part starts with plain text, only a
plain token at the end of the first part goes on into it. Where plain text is cut into pieces does
not matter.
-/

namespace LiquidsoapHighlight

/-- The piece with the text of another one after its own. -/
def Piece.joinText (p q : Piece) : Piece :=
  ⟨{ p.token with text := p.token.text ++ q.token.text }, p.construct⟩

namespace Token

/-- Tokens one after the other, where plain text on both sides of the seam is one token. -/
def joinSeam (first second : List Token) : List Token :=
  match first.getLast?, second with
  | some last, next :: rest =>
    if last.kind = .plain ∧ next.kind = .plain then
      first.dropLast ++ { last with text := last.text ++ next.text } :: rest
    else first ++ next :: rest
  | _, _ => first ++ second

theorem joinSeam_of_plain {last next : Token} (hlast : last.kind = .plain)
    (hnext : next.kind = .plain) (init rest : List Token) :
    joinSeam (init ++ [last]) (next :: rest) =
      init ++ { last with text := last.text ++ next.text } :: rest := by
  simp [joinSeam, hlast, hnext]

theorem joinSeam_of_not_plain {first second : List Token}
    (h : ∀ last ∈ first.getLast?, last.kind ≠ .plain) :
    joinSeam first second = first ++ second := by
  unfold joinSeam
  split
  · next last next rest hlast =>
      rw [if_neg fun hplain => h last hlast hplain.1]
  · rfl

theorem joinSeam_cases (first second : List Token) :
    joinSeam first second = first ++ second ∨
      ∃ init last next rest, first = init ++ [last] ∧ second = next :: rest ∧
        last.kind = .plain ∧ next.kind = .plain ∧
        joinSeam first second = init ++ { last with text := last.text ++ next.text } :: rest := by
  unfold joinSeam
  split
  · next last next rest hlast =>
      split
      · next hplain =>
          obtain ⟨init, rfl⟩ := List.getLast?_eq_some_iff.mp hlast
          rw [List.dropLast_concat]
          exact .inr ⟨init, last, next, rest, rfl, rfl, hplain.1, hplain.2, rfl⟩
      · exact .inl rfl
  · exact .inl rfl

theorem joins_plain_iff {p q : Piece} (hq : q.token.kind = .plain) :
    p.joins q = true ↔ p.token.kind = .plain := by
  simp [joins_iff, hq]

/-- The run that a list of pieces begins with. -/
theorem exists_firstRun (first : Piece) (rest : List Piece) :
    ∃ run back, rest = run ++ back ∧ (first :: run).IsChain (fun p q => p.joins q = true) ∧
      ∀ p ∈ (first :: run).getLast?, ∀ q ∈ back.head?, p.joins q = false := by
  induction rest generalizing first with
  | nil => exact ⟨[], [], rfl, .singleton first, by simp⟩
  | cons next rest ih =>
      cases hj : first.joins next with
      | true =>
          obtain ⟨run, back, rfl, hchain, hstops⟩ := ih next
          refine ⟨next :: run, back, rfl, List.isChain_cons_cons.mpr ⟨hj, hchain⟩, ?_⟩
          rwa [List.getLast?_cons_cons]
      | false =>
          refine ⟨[], next :: rest, rfl, .singleton first, ?_⟩
          simpa using hj

/-- The run that a list of pieces ends with. -/
theorem exists_lastRun (p : Piece) (rest : List Piece) :
    ∃ front first run, p :: rest = front ++ first :: run ∧
      (first :: run).IsChain (fun p q => p.joins q = true) ∧
      ∀ q ∈ front.getLast?, q.joins first = false := by
  induction rest generalizing p with
  | nil => exact ⟨[], p, [], rfl, .singleton p, by simp⟩
  | cons next rest ih =>
      obtain ⟨front, first, run, hsplit, hchain, hstarts⟩ := ih next
      cases front with
      | nil =>
          obtain ⟨rfl, rfl⟩ := List.cons.inj hsplit
          cases hj : p.joins next with
          | true =>
              refine ⟨[], p, next :: rest, rfl, ?_, by simp⟩
              exact List.isChain_cons_cons.mpr ⟨hj, hchain⟩
          | false => exact ⟨[p], next, rest, rfl, hchain, by simpa using hj⟩
      | cons q front =>
          refine ⟨p :: q :: front, first, run, congrArg (List.cons p) hsplit, hchain, ?_⟩
          rwa [List.getLast?_cons_cons]

theorem coalesce_first {first : Piece} {run back : List Piece}
    (hrun : (first :: run).IsChain fun p q => p.joins q = true)
    (hback : ∀ p ∈ (first :: run).getLast?, ∀ q ∈ back.head?, p.joins q = false) :
    coalesce (first :: run ++ back) = joined first run :: coalesce back := by
  rw [coalesce_append hback, coalesce_of_isChain hrun]
  rfl

theorem coalesce_last {front run : List Piece} {first : Piece}
    (hrun : (first :: run).IsChain fun p q => p.joins q = true)
    (hfront : ∀ p ∈ front.getLast?, p.joins first = false) :
    coalesce (front ++ first :: run) = coalesce front ++ [joined first run] := by
  have hback : ∀ p ∈ (first :: run).getLast?, ∀ q ∈ [].head?, p.joins q = false := by simp
  have h := coalesce_around hrun hfront hback
  rwa [List.append_nil] at h

theorem kind_of_isChain_joins {first : Piece} {run : List Piece}
    (h : (first :: run).IsChain fun p q => p.joins q = true) :
    ∀ p ∈ first :: run, p.token.kind = first.token.kind := by
  induction run generalizing first with
  | nil => simp
  | cons next run ih =>
      obtain ⟨hj, hrest⟩ := List.isChain_cons_cons.mp h
      refine List.forall_mem_cons.mpr ⟨rfl, fun p hp => ?_⟩
      rw [ih hrest p hp, (joins_iff.mp hj).1]

theorem kind_of_getLast? {first : Piece} {run : List Piece}
    (h : (first :: run).IsChain fun p q => p.joins q = true) :
    ∀ p ∈ (first :: run).getLast?, p.token.kind = first.token.kind :=
  fun p hp => kind_of_isChain_joins h p (List.mem_of_getLast? hp)

theorem joined_append_cons (first next : Piece) (run more : List Piece) :
    joined first (run ++ next :: more) =
      { joined first run with text := (joined first run).text ++ (joined next more).text } := by
  simp [joined]

/-- Before plain text, the tokens are those of both parts, joined at the seam. -/
theorem coalesce_append_plain (front : List Piece) {next : Piece} (hnext : next.token.kind = .plain)
    (back : List Piece) :
    coalesce (front ++ next :: back) = joinSeam (coalesce front) (coalesce (next :: back)) := by
  cases front with
  | nil => rfl
  | cons p front =>
      obtain ⟨front, first, run, hsplit, hchain, hstarts⟩ := exists_lastRun p front
      obtain ⟨more, back, rfl, hmore, hstops⟩ := exists_firstRun next back
      have hlast := kind_of_getLast? hchain
      rw [hsplit, coalesce_last hchain hstarts, ← List.cons_append, coalesce_first hmore hstops]
      by_cases hplain : first.token.kind = .plain
      · have hseam : (first :: (run ++ next :: more)).IsChain fun p q => p.joins q = true := by
          rw [← List.cons_append]
          refine List.isChain_append.mpr ⟨hchain, hmore, fun q hq r hr => ?_⟩
          obtain rfl := Option.some.inj hr
          exact (joins_plain_iff hnext).mpr ((hlast q hq).trans hplain)
        have hend : ∀ q ∈ (first :: (run ++ next :: more)).getLast?, ∀ r ∈ back.head?,
            q.joins r = false := by
          rw [← List.cons_append, List.getLast?_append_of_ne_nil _ (List.cons_ne_nil _ _)]
          exact hstops
        have hassoc : front ++ first :: run ++ (next :: more ++ back) =
            front ++ (first :: (run ++ next :: more) ++ back) := by simp
        have hlast' : (joined first run).kind = .plain := hplain
        have hnext' : (joined next more).kind = .plain := hnext
        rw [hassoc, coalesce_around hseam hstarts hend, joined_append_cons,
          joinSeam_of_plain hlast' hnext']
      · have hapart : ∀ q ∈ (front ++ first :: run).getLast?, ∀ r ∈ (next :: more ++ back).head?,
            q.joins r = false := by
          intro q hq r hr
          rw [List.getLast?_append_of_ne_nil _ (List.cons_ne_nil _ _)] at hq
          obtain rfl := Option.some.inj hr
          rw [← Bool.not_eq_true, joins_plain_iff hnext, hlast q hq]
          exact hplain
        rw [coalesce_append hapart, coalesce_last hchain hstarts, coalesce_first hmore hstops,
          joinSeam_of_not_plain (by simpa [joined] using hplain)]

theorem joinNext_plain {p : Piece} (hp : p.token.kind = .plain) (last : Token)
    (done : List Token) (construct : Option UInt32) :
    joinNext (last :: done, construct) p =
      if last.kind = .plain then
        ({ last with text := last.text ++ p.token.text } :: done, construct)
      else (p.token :: last :: done, p.construct) := by
  simp only [joinNext, joins_plain_iff hp]

theorem joinNext_joinText {p q : Piece} (hp : p.token.kind = .plain) (hq : q.token.kind = .plain)
    (state : List Token × Option UInt32) :
    joinNext (joinNext state p) q = joinNext state (p.joinText q) := by
  have hboth : (p.joinText q).token.kind = .plain := hp
  obtain ⟨tokens, construct⟩ := state
  cases tokens with
  | nil => exact (joinNext_plain hq p.token [] p.construct).trans (if_pos hp)
  | cons last done =>
      rw [joinNext_plain hp, joinNext_plain hboth]
      by_cases hlast : last.kind = .plain
      · rw [if_pos hlast, if_pos hlast, joinNext_plain hq, if_pos hlast]
        simp only [Piece.joinText, List.append_assoc]
      · rw [if_neg hlast, if_neg hlast, joinNext_plain hq, if_pos hp]
        rfl

/-- Plain text that is cut in two pieces gives the same tokens. -/
theorem coalesce_joinText (front : List Piece) {p q : Piece} (hp : p.token.kind = .plain)
    (hq : q.token.kind = .plain) (back : List Piece) :
    coalesce (front ++ p.joinText q :: back) = coalesce (front ++ p :: q :: back) := by
  rw [coalesce_eq_joinAll, coalesce_eq_joinAll, joinAll, joinAll]
  simp only [List.foldl_append, List.foldl_cons, joinNext_joinText hp hq]

end Token
end LiquidsoapHighlight
