import LiquidsoapHighlight.Proofs.Token.Runs

/-!
Joining pieces one by one, from the first to the last. A piece is then joined to the last token so
far, of which only the construct of its first piece is known; the tokens are the same.
-/

namespace LiquidsoapHighlight
namespace Token

theorem joins_iff {p q : Piece} : p.joins q = true ↔ p.token.kind = q.token.kind ∧
    (q.token.kind = .plain ∨ (q.token.kind = .comment ∨ q.token.kind = .pragma) ∧
      q.construct.isSome ∧ p.construct = q.construct) := by
  rw [eq_comm (a := p.construct)]
  cases hq : q.token.kind <;> simp [Piece.joins, hq, TokenKind.coalesces]

theorem joins_of_kind {p q : Piece} {kind : TokenKind} (hk : kind = .comment ∨ kind = .pragma)
    (hq : q.token.kind = kind) :
    p.joins q = true ↔ p.token.kind = kind ∧ q.construct.isSome ∧ p.construct = q.construct := by
  have hplain : kind ≠ .plain := by
    obtain rfl | rfl := hk <;> nofun
  rw [joins_iff, hq]
  simp only [hplain, hk, true_and, false_or]

/-- Neighbours of one construct and of the same kind are joined. -/
theorem joins_of_construct {p q : Piece} {serial : UInt32}
    (hk : p.token.kind = .comment ∨ p.token.kind = .pragma) (hq : q.token.kind = p.token.kind)
    (hpc : p.construct = some serial) (hqc : q.construct = some serial) : p.joins q = true :=
  (joins_of_kind hk hq).mpr ⟨rfl, hqc ▸ rfl, hpc.trans hqc.symm⟩

/-- Outside of constructs, what follows a comment or an annotation is not joined to it. -/
theorem not_joins_of_no_construct {p : Piece}
    (hk : p.token.kind = .comment ∨ p.token.kind = .pragma) (hc : p.construct = none) (q : Piece) :
    p.joins q = false := by
  rw [← Bool.not_eq_true]
  intro hj
  obtain ⟨_, hsome, hsame⟩ := (joins_of_kind hk (joins_iff.mp hj).1.symm).mp hj
  rw [← hsame, hc] at hsome
  cases hsome

/-- Adds a piece to the tokens so far, the last one first, of which that one is kept together with
the construct of its first piece. -/
def joinNext : List Token × Option UInt32 → Piece → List Token × Option UInt32
  | ([], _), p => ([p.token], p.construct)
  | (last :: done, construct), p =>
    if Piece.joins ⟨last, construct⟩ p then
      ({ last with text := last.text ++ p.token.text } :: done, construct)
    else (p.token :: last :: done, p.construct)

/-- Joins pieces one by one. -/
def joinAll (pieces : List Piece) : List Token :=
  (pieces.foldl joinNext ([], none)).1.reverse

/-- The token of a run, given by its first piece and the others. -/
def joined (first : Piece) (run : List Piece) : Token :=
  ⟨first.token.kind, first.token.start, (first :: run).flatMap fun p => p.token.text⟩

theorem joined_nil (p : Piece) : joined p [] = p.token := by
  simp [joined]

theorem joined_concat (first : Piece) (run : List Piece) (q : Piece) :
    joined first (run ++ [q]) =
      { joined first run with text := (joined first run).text ++ q.token.text } := by
  simp [joined]

/-- Whether a piece joins the last piece of a run can be told from the run's kind and the construct
of its first piece. -/
theorem joins_of_isChain {first : Piece} {run : List Piece}
    (h : (first :: run).IsChain fun p q => p.joins q = true) {t : Token}
    (ht : t.kind = first.token.kind) (q : Piece) :
    Piece.joins ⟨t, first.construct⟩ q =
      ((first :: run).getLast (List.cons_ne_nil _ _)).joins q := by
  induction run generalizing first with
  | nil => simp [Piece.joins, ht]
  | cons next run ih =>
      obtain ⟨hjoined, hrest⟩ := List.isChain_cons_cons.mp h
      obtain ⟨hkind, hsame⟩ := joins_iff.mp hjoined
      rw [List.getLast_cons_cons, ← ih hrest (ht.trans hkind), Bool.eq_iff_iff, joins_iff,
        joins_iff]
      obtain hplain | ⟨_, _, hconstruct⟩ := hsame
      · -- Plain pieces are joined whatever their constructs are.
        rw [ht, hkind, hplain]
        constructor
        · rintro ⟨hq, _⟩
          exact ⟨hq, .inl hq.symm⟩
        · rintro ⟨hq, _⟩
          exact ⟨hq, .inl hq.symm⟩
      · rw [hconstruct]

theorem coalesce_of_isChain {first : Piece} {run : List Piece}
    (h : (first :: run).IsChain fun p q => p.joins q = true) :
    coalesce (first :: run) = [joined first run] := by
  rw [coalesce, groups_eq_splitBy, List.splitBy_of_isChain (List.cons_ne_nil _ _) h]
  rfl

/-- Where a piece does not join the one before it, the pieces are joined on each side apart. -/
theorem coalesce_append {front back : List Piece}
    (h : ∀ p ∈ front.getLast?, ∀ q ∈ back.head?, p.joins q = false) :
    coalesce (front ++ back) = coalesce front ++ coalesce back := by
  simp only [coalesce, groups_eq_splitBy, List.splitBy_append h, List.filterMap_append]

/-- A run whose neighbours do not join it is one token. -/
theorem coalesce_around {front run back : List Piece} {first : Piece}
    (hrun : (first :: run).IsChain fun p q => p.joins q = true)
    (hfront : ∀ p ∈ front.getLast?, p.joins first = false)
    (hback : ∀ p ∈ (first :: run).getLast?, ∀ q ∈ back.head?, p.joins q = false) :
    coalesce (front ++ (first :: run ++ back)) =
      coalesce front ++ joined first run :: coalesce back := by
  have hfirst : ∀ p ∈ front.getLast?, ∀ q ∈ (first :: run ++ back).head?, p.joins q = false := by
    intro p hp q hq
    obtain rfl := Option.some.inj hq
    exact hfront p hp
  rw [coalesce_append hfirst, coalesce_append hback, coalesce_of_isChain hrun]
  rfl

theorem foldl_joinNext {first : Piece} {run : List Piece}
    (h : (first :: run).IsChain fun p q => p.joins q = true) (done : List Token)
    (pieces : List Piece) :
    (pieces.foldl joinNext (joined first run :: done, first.construct)).1.reverse =
      done.reverse ++ coalesce (first :: run ++ pieces) := by
  induction pieces generalizing first run done with
  | nil => rw [List.append_nil, coalesce_of_isChain h, List.foldl_nil, List.reverse_cons]
  | cons q pieces ih =>
      have hlast : ∀ p ∈ (first :: run).getLast?, ∀ r ∈ (q :: pieces).head?,
          Piece.joins ⟨joined first run, first.construct⟩ q = p.joins r := by
        intro p hp r hr
        rw [List.getLast?_eq_some_getLast (List.cons_ne_nil first run)] at hp
        obtain rfl := Option.some.inj hp
        obtain rfl := Option.some.inj hr
        exact joins_of_isChain h rfl q
      rw [List.foldl_cons, joinNext]
      split
      · next hj =>
          have hchain : (first :: (run ++ [q])).IsChain fun p r => p.joins r = true := by
            rw [← List.cons_append, List.isChain_append]
            exact ⟨h, .singleton q, fun p hp r hr => (hlast p hp r hr).symm.trans hj⟩
          have hsplit : first :: run ++ q :: pieces = first :: (run ++ [q]) ++ pieces := by simp
          rw [hsplit, ← ih hchain done, joined_concat]
      · next hj =>
          rw [Bool.not_eq_true] at hj
          have happ := coalesce_append fun p hp r hr => (hlast p hp r hr).symm.trans hj
          rw [happ, coalesce_of_isChain h, ← List.append_assoc, ← List.reverse_cons]
          have hnext := ih (List.IsChain.singleton q) (joined first run :: done)
          rw [joined_nil] at hnext
          exact hnext

/-- Joining each piece to the one before it gives the same tokens as joining the pieces one by one,
when only the construct of a token's first piece is known. -/
theorem coalesce_eq_joinAll (pieces : List Piece) : coalesce pieces = joinAll pieces := by
  cases pieces with
  | nil => rfl
  | cons p pieces =>
      have h := foldl_joinNext (List.IsChain.singleton p) [] pieces
      rw [joined_nil] at h
      exact h.symm

/-- The token that goes on begins with one of the pieces, and the construct of that one is kept. -/
def BeginsIn (pieces : List Piece) (state : List Token × Option UInt32) : Prop :=
  ∀ last ∈ state.1.head?, ∃ p ∈ pieces, p.token.kind = last.kind ∧
    p.token.start = last.start ∧ p.construct = state.2

theorem BeginsIn.joinNext {pieces : List Piece} {state : List Token × Option UInt32}
    (h : BeginsIn pieces state) {p : Piece} (hp : p ∈ pieces) :
    BeginsIn pieces (joinNext state p) := by
  obtain ⟨tokens, construct⟩ := state
  have hown : BeginsIn pieces (p.token :: tokens, p.construct) := by
    intro last hlast
    obtain rfl := Option.some.inj hlast
    exact ⟨p, hp, rfl, rfl, rfl⟩
  cases tokens with
  | nil => exact hown
  | cons last done =>
      rw [Token.joinNext]
      split
      · intro grown hgrown
        obtain rfl := Option.some.inj hgrown
        exact h last rfl
      · exact hown

theorem beginsIn_foldl (pieces : List Piece) :
    BeginsIn pieces (pieces.foldl joinNext ([], none)) :=
  List.foldlRecOn pieces Token.joinNext (fun _ hlast => nomatch hlast)
    fun _ hstate _ hp => hstate.joinNext hp

/-- Of two neighbours at most one is plain. -/
def Apart (t u : Token) : Prop := t.kind = .plain → u.kind ≠ .plain

theorem Apart.symm {t u : Token} (h : Apart t u) : Apart u t :=
  fun hu ht => h ht hu

theorem isChain_joinNext {state : List Token × Option UInt32} (h : state.1.IsChain Apart)
    (p : Piece) : (joinNext state p).1.IsChain Apart := by
  obtain ⟨tokens, construct⟩ := state
  cases tokens with
  | nil => exact .singleton _
  | cons last done =>
      rw [joinNext]
      split
      · -- The token that grows keeps its kind.
        obtain ⟨hlast, hdone⟩ := List.isChain_cons.mp h
        exact List.isChain_cons.mpr ⟨hlast, hdone⟩
      · next hj =>
          refine List.isChain_cons_cons.mpr ⟨fun hp hl => hj ?_, h⟩
          exact joins_iff.mpr ⟨hl.trans hp.symm, .inl hp⟩

/-- Plain tokens are never neighbours. -/
theorem isChain_coalesce (pieces : List Piece) : (coalesce pieces).IsChain Apart := by
  have hall : ∀ state : List Token × Option UInt32, state.1.IsChain Apart →
      (pieces.foldl joinNext state).1.IsChain Apart := by
    induction pieces with
    | nil => exact fun state h => h
    | cons p pieces ih => exact fun state h => ih _ (isChain_joinNext h p)
  rw [coalesce_eq_joinAll, joinAll, List.isChain_reverse]
  exact (hall ([], none) .nil).imp fun _ _ => Apart.symm

end Token
end LiquidsoapHighlight
