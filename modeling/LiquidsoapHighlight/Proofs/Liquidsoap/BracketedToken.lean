import LiquidsoapHighlight.Proofs.Liquidsoap.Bracketed
import LiquidsoapHighlight.Proofs.Liquidsoap.Openers
import LiquidsoapHighlight.Proofs.Token.Joining
import LiquidsoapHighlight.Proofs.Token.Placed

/-!
Block comments and annotation blocks are one token each. Their pieces have a serial number that the
pieces right before and right after them do not have, so they are joined with each other only.
-/

namespace LiquidsoapHighlight
namespace Liquidsoap
namespace Bracketed

theorem kind_remark (b : Bracketed) : b.kind = .comment ∨ b.kind = .pragma := by
  cases b
  · exact .inl rfl
  · exact .inr rfl

theorem effect_push (b : Bracketed) {mode : Mode} {kind : TokenKind} {taken : List Char}
    (h : Effect mode kind taken (.push b.mode)) :
    mode.scansExpressions = true ∧ kind = b.kind ∧ taken = b.opener := by
  generalize ht : Transition.push b.mode = t at h
  cases h with
  | openComment hx | openArgsof hx =>
      cases b with
      | comment | annotation => first | exact ⟨hx, rfl, rfl⟩ | cases ht
  | openString q | openHole q => cases b <;> cases q <;> cases ht
  | openLine | openBrace => cases b <;> cases ht
  | _ => cases ht

/-- The token of a construct, with its end where counting the signs ends, or else at the end of the
text. -/
def token (b : Bracketed) (α : Type) [OfNat α 0] [OfNat α 1] [Add α] [Sub α] [DecidableEq α]
    (offset : Nat) (inside : List Char) : Token :=
  ⟨b.kind, offset, b.opener ++ inside.take ((b.close? 0 (0 : α) inside).getD inside.length)⟩

/-- Of the text's tokens, that of the construct which opens in a state and holds these characters
after its opener is the only one there; if the construct is closed, the scan goes on after it with
the frames of the state. -/
structure IsOneToken (b : Bracketed) (α : Type) [OfNat α 0] [OfNat α 1] [Add α] [Sub α]
    [DecidableEq α] (text : List Char) (s : Scanner) (inside : List Char) : Prop where
  token : (Token.scan grammar text).filter (b.token α s.offset inside).overlaps =
    [b.token α s.offset inside]
  closed : ∀ n, b.close? 0 (0 : α) inside = some n → ∃ count,
    (Scanner.after grammar text count).offset = (b.token α s.offset inside).stop ∧
      (Scanner.after grammar text count).stack.frames = s.stack.frames

section
variable {b : Bracketed} {text : List Char} {step : Nat}

/-- The step that opens a construct takes its opener and names its frame. -/
theorem exists_opener (h : (Scanner.after grammar text (step + 1)).stack =
      (Scanner.after grammar text step).stack.push b.mode) :
    ∃ p, (Scanner.steps grammar text)[step]? = some (p, Scanner.after grammar text (step + 1)) ∧
      p.token = ⟨b.kind, (Scanner.after grammar text step).offset, b.opener⟩ ∧
      p.construct = some ((Scanner.after grammar text step).stack.pushes + 1) ∧
      (Scanner.after grammar text step).stack.top.mode.scansExpressions = true := by
  obtain ⟨p, kind, taken, hstep, he, rfl⟩ := exists_push h
  obtain ⟨hx, rfl, rfl⟩ := b.effect_push he
  exact ⟨_, hstep, rfl, Grammar.construct?_push (by cases b <;> decide) _, hx⟩

/-- The piece after the end of the construct is not joined with it. -/
theorem Extends.not_joins_next {s : ModeStack} {level : UInt32} {u : Scanner} {p : Piece}
    {inner back : List (Piece × Scanner)} (h : Extends b s level u inner back)
    (hx : s.top.mode.scansExpressions = true)
    (ht : Scanner.Trace grammar (u.stateAfter inner) back)
    (hk : p.token.kind = b.kind) (hc : p.construct = some (s.pushes + 1)) :
    ∀ q ∈ (back.map Prod.fst).head?, p.joins q = false := by
  intro q hq
  cases ht with
  | done => cases hq
  | @step _ v r back hn _ =>
      obtain rfl := Option.some.inj hq
      obtain ⟨n, hclose⟩ := Option.ne_none_iff_exists'.mp
        fun hn => List.cons_ne_nil _ _ (h.unclosed hn)
      have hstack := h.closed n hclose
      obtain ⟨_, _, _, _, _, _, hr, _⟩ := exists_effect hn
      rw [← Bool.not_eq_true]
      intro hj
      have hkind : r.token.kind = b.kind := (Token.joins_iff.mp hj).1.symm.trans hk
      obtain ⟨_, _, hsame⟩ := (Token.joins_of_kind b.kind_remark hkind).mp hj
      rw [hc, hr, hstack] at hsame
      have hnew := (construct?_of_expression (s := { s with pushes := s.pushes + 1 }) hx
        hsame.symm).1
      exact ModeStack.serial_ne_next _ hnew

theorem IsOneToken.of_close?_eq {α β : Type} [OfNat α 0] [OfNat α 1] [Add α] [Sub α]
    [DecidableEq α] [OfNat β 0] [OfNat β 1] [Add β] [Sub β] [DecidableEq β] {s : Scanner}
    {inside : List Char} (he : b.close? 0 (0 : α) inside = b.close? 0 (0 : β) inside)
    (h : b.IsOneToken α text s inside) : b.IsOneToken β text s inside := by
  have htoken : b.token α s.offset inside = b.token β s.offset inside := by
    rw [Bracketed.token, he, Bracketed.token]
  refine ⟨?_, fun n hn => ?_⟩
  · rw [← htoken]
    exact h.token
  · rw [← htoken]
    exact h.closed n (he.trans hn)

theorem Extends.isChain {s : ModeStack} {level : UInt32} {u : Scanner} {p : Piece}
    {inner back : List (Piece × Scanner)} (h : Extends b s level u inner back)
    (hk : p.token.kind = b.kind) (hc : p.construct = some (s.pushes + 1)) :
    (∀ q ∈ p :: inner.map Prod.fst,
        q.token.kind = b.kind ∧ q.construct = some (s.pushes + 1)) ∧
      (p :: inner.map Prod.fst).IsChain fun q r => q.joins r = true := by
  have hall : ∀ q ∈ p :: inner.map Prod.fst,
      q.token.kind = b.kind ∧ q.construct = some (s.pushes + 1) := by
    refine List.forall_mem_cons.mpr ⟨⟨hk, hc⟩, List.forall_mem_map.mpr h.pieces⟩
  refine ⟨hall, List.isChain_iff_getElem.mpr fun i hi => ?_⟩
  obtain ⟨hk1, hc1⟩ := hall _ (List.getElem_mem (Nat.lt_of_succ_lt hi))
  obtain ⟨hk2, hc2⟩ := hall _ (List.getElem_mem hi)
  exact Token.joins_of_construct (hk1 ▸ b.kind_remark) (hk2.trans hk1.symm) hc1 hc2

/-- The steps after the one that opens a construct, with those in it apart. -/
theorem exists_inner (h : (Scanner.after grammar text (step + 1)).stack =
      (Scanner.after grammar text step).stack.push b.mode) :
    ∃ inner back, (Scanner.steps grammar text).drop (step + 1) = inner ++ back ∧
      Extends b (Scanner.after grammar text step).stack 0 (Scanner.after grammar text (step + 1))
        inner back :=
  exists_extends h (Scanner.trace_take_drop grammar text (step + 1)).2
    (Scanner.rest_drop_steps_eq_nil grammar text (step + 1))

/-- The pieces of a construct are joined, and no others with them. -/
theorem Extends.scan_eq {p : Piece} {inner back : List (Piece × Scanner)}
    (h : Extends b (Scanner.after grammar text step).stack 0
      (Scanner.after grammar text (step + 1)) inner back)
    (hstep : (Scanner.steps grammar text)[step]? =
      some (p, Scanner.after grammar text (step + 1)))
    (hsplit : (Scanner.steps grammar text).drop (step + 1) = inner ++ back)
    (hx : (Scanner.after grammar text step).stack.top.mode.scansExpressions = true)
    (hk : p.token.kind = b.kind)
    (hc : p.construct = some ((Scanner.after grammar text step).stack.pushes + 1)) :
    Token.scan grammar text =
      Token.coalesce (((Scanner.steps grammar text).take step).map Prod.fst) ++
        Token.joined p (inner.map Prod.fst) :: Token.coalesce (back.map Prod.fst) := by
  have hsteps := Scanner.steps_eq_around hstep hsplit
  have htail := (Scanner.trace_take_drop grammar text (step + 1)).2
  rw [hsplit, Scanner.trace_append] at htail
  obtain ⟨hpieces, hchain⟩ := h.isChain hk hc
  have hbefore := not_joins_opener (hk ▸ b.kind_remark) hc
    (Nat.le_of_lt (List.getElem?_eq_some_iff.mp hstep).1)
  have hafter : ∀ q ∈ (p :: inner.map Prod.fst).getLast?,
      ∀ r ∈ (back.map Prod.fst).head?, q.joins r = false := by
    intro q hq
    obtain ⟨hqk, hqc⟩ := hpieces q (List.mem_of_getLast? hq)
    exact h.not_joins_next hx htail.2 hqk hqc
  rw [← Token.coalesce_around hchain hbefore hafter, Token.scan, Scanner.pieces]
  refine congrArg Token.coalesce ((congrArg (List.map Prod.fst) hsteps).trans ?_)
  simp

/-- The construct ends where counting its signs with the depths of a frame ends. -/
theorem exists_isOneToken (b : Bracketed) (text : List Char) (step : Nat)
    (h : (Scanner.after grammar text (step + 1)).stack =
      (Scanner.after grammar text step).stack.push b.mode) :
    ∃ inside, (Scanner.after grammar text step).rest = b.opener ++ inside ∧
      b.IsOneToken UInt32 text (Scanner.after grammar text step) inside := by
  obtain ⟨p, hstep, htoken, hconstruct, hx⟩ := exists_opener h
  obtain ⟨_, hrest, _, hoffset⟩ := Scanner.next?_takes (Scanner.next?_after hstep).1
  obtain ⟨inner, back, hsplit, hinner⟩ := exists_inner h
  have hscan := hinner.scan_eq hstep hsplit hx (congrArg Token.kind htoken) hconstruct
  have hjoined : Token.joined p (inner.map Prod.fst) =
      b.token UInt32 (Scanner.after grammar text step).offset
        (Scanner.after grammar text (step + 1)).rest := by
    rw [Token.joined, htoken, Bracketed.token, ← hinner.taken, List.flatMap_cons, htoken,
      List.flatMap_map]
    rfl
  refine ⟨(Scanner.after grammar text (step + 1)).rest, by rw [hrest, htoken], ?_, fun n hn => ?_⟩
  · have hplaced := (Scanner.placed_scan grammar text).1
    rw [hscan, hjoined] at hplaced ⊢
    exact hplaced.filter_overlaps
  · have htail := (Scanner.trace_take_drop grammar text (step + 1)).2
    rw [hsplit, Scanner.trace_append] at htail
    refine ⟨step + 1 + inner.length, ?_⟩
    rw [Scanner.after_add hsplit, hinner.closed n hn, htail.1.offset_eq, hoffset, htoken,
      hinner.taken, Token.stop, Token.stop, Token.length, Token.length, Bracketed.token,
      Text.byteLength_append, Nat.add_assoc]
    exact ⟨rfl, rfl⟩

/-- A block comment or annotation block is one token, and ends where counting its signs ends. In a
text of fewer bytes than a frame has depths, the counter has no limit that matters. -/
theorem bracketed_is_one_token (b : Bracketed) (text : List Char) (step : Nat)
    (h : (Scanner.after grammar text (step + 1)).stack =
      (Scanner.after grammar text step).stack.push b.mode) :
    ∃ inside, (Scanner.after grammar text step).rest = b.opener ++ inside ∧
      b.IsOneToken UInt32 text (Scanner.after grammar text step) inside ∧
      (Text.byteLength text < 2 ^ 32 →
        b.IsOneToken Nat text (Scanner.after grammar text step) inside) := by
  obtain ⟨inside, hrest, hone⟩ := exists_isOneToken b text step h
  refine ⟨inside, hrest, hone, fun hshort => hone.of_close?_eq ?_⟩
  have hle := (Scanner.length_rest_after_le grammar text step).trans
    (Text.length_le_byteLength text)
  rw [hrest, List.length_append] at hle
  refine b.close?_toNat 0 0 ?_
  rw [UInt32.toNat_zero]
  omega

/-- A block comment with another in it, and a line comment right after it. -/
def nestedThenLine : List Char := "#<a#<b>#>##c".toList

theorem nestedThenLine_is_one_token :
    (Scanner.after grammar nestedThenLine 1).stack =
        (Scanner.after grammar nestedThenLine 0).stack.push comment.mode ∧
      ∃ inside, (Scanner.after grammar nestedThenLine 0).rest = comment.opener ++ inside ∧
        comment.IsOneToken UInt32 nestedThenLine (Scanner.after grammar nestedThenLine 0) inside ∧
        (Text.byteLength nestedThenLine < 2 ^ 32 →
          comment.IsOneToken Nat nestedThenLine (Scanner.after grammar nestedThenLine 0)
            inside) :=
  ⟨by decide +kernel, bracketed_is_one_token comment nestedThenLine 0 (by decide +kernel)⟩

/-- A construct with so many more signs that lead deeper, one that closes, and another character. -/
def deeply (b : Bracketed) (count : Nat) : List Char :=
  b.opener ++ ((List.replicate count b.deeper).flatten ++ (b.close ++ ['x']))

theorem after_deeply (b : Bracketed) (count : Nat) :
    Scanner.after grammar (b.deeply count) 0 = .start (b.deeply count) ∧
      (Scanner.after grammar (b.deeply count) 1).stack =
        (Scanner.after grammar (b.deeply count) 0).stack.push b.mode := by
  have opens (rest : List Char) :
      grammar.move .topLevel (b.opener ++ rest) = ⟨b.kind, b.opener.length, .push b.mode⟩ := by
    cases b <;> rfl
  have first := Scanner.next?_eq_some (s := .start (b.deeply count)) rfl
    (by cases b <;> exact List.cons_ne_nil _ _) (opens _)
  obtain ⟨rest, hsteps⟩ := Scanner.exists_steps_eq_cons first
  constructor
  · rfl
  · rw [Scanner.after, Scanner.after, hsteps]
    rfl

/-- Counted without a limit, the construct is never closed. -/
theorem close?_deeply_nat (b : Bracketed) {count : Nat} (deep : count ≠ 0) :
    b.close? 0 (0 : Nat) ((List.replicate count b.deeper).flatten ++ (b.close ++ ['x'])) =
      none := by
  have hdeep := b.close?_nested (id : Nat → Nat) (fun _ => rfl) 0 count (b.close ++ ['x'])
  rw [Nat.zero_add, id_eq, id_eq, b.close?_close deep] at hdeep
  rw [hdeep]
  cases b <;> rfl

/-- Counted up to where depths start again from zero, it is closed before the last character. -/
theorem close?_deeply_uint32 (b : Bracketed) {count : Nat} (wraps : UInt32.ofNat count = 0) :
    b.close? 0 (0 : UInt32) ((List.replicate count b.deeper).flatten ++ (b.close ++ ['x'])) =
      some (b.close.length + count * b.deeper.length) := by
  have hdeep := b.close?_nested UInt32.ofNat (fun n => UInt32.ofNat_add n 1) 0 count
    (b.close ++ ['x'])
  rw [Nat.zero_add, wraps, b.close?_last] at hdeep
  exact hdeep

/-- Two ways to count that both tell the construct's token tell the same token. -/
theorem IsOneToken.close?_getD_eq {α β : Type} [OfNat α 0] [OfNat α 1] [Add α] [Sub α]
    [DecidableEq α] [OfNat β 0] [OfNat β 1] [Add β] [Sub β] [DecidableEq β] {s : Scanner}
    {inside : List Char} (h : b.IsOneToken α text s inside) (h' : b.IsOneToken β text s inside) :
    inside.take ((b.close? 0 (0 : α) inside).getD inside.length) =
      inside.take ((b.close? 0 (0 : β) inside).getD inside.length) := by
  have stop_pos (t : List Char) : s.offset < s.offset + Text.byteLength (b.opener ++ t) :=
    Nat.lt_add_of_pos_right (Text.byteLength_pos (by cases b <;> exact List.cons_ne_nil _ _))
  have hmem : b.token α s.offset inside ∈
      (Token.scan grammar text).filter (b.token β s.offset inside).overlaps := by
    have hself : b.token α s.offset inside ∈
        (Token.scan grammar text).filter (b.token α s.offset inside).overlaps := by
      rw [h.token]
      exact List.mem_singleton_self _
    refine List.mem_filter.mpr ⟨(List.mem_filter.mp hself).1, ?_⟩
    simp only [Token.overlaps, decide_eq_true_eq]
    exact ⟨stop_pos _, stop_pos _⟩
  rw [h'.token, List.mem_singleton] at hmem
  exact List.append_cancel_left (congrArg Token.text hmem)

/-- Where depths start again from zero, counting without a limit does not tell the token. -/
theorem deeply_not_isOneToken (b : Bracketed) {count : Nat} (deep : count ≠ 0)
    (wraps : UInt32.ofNat count = 0) :
    ¬ ∃ inside, (Scanner.after grammar (b.deeply count) 0).rest = b.opener ++ inside ∧
      b.IsOneToken Nat (b.deeply count) (Scanner.after grammar (b.deeply count) 0) inside := by
  rintro ⟨inside, hrest, hnat⟩
  obtain ⟨hstart, hpush⟩ := after_deeply b count
  obtain ⟨other, hother, hone⟩ := exists_isOneToken b (b.deeply count) 0 hpush
  obtain rfl := List.append_cancel_left (hrest.symm.trans hother)
  rw [hstart] at hrest
  obtain rfl : (List.replicate count b.deeper).flatten ++ (b.close ++ ['x']) = inside :=
    List.append_cancel_left hrest
  have hlength : ((List.replicate count b.deeper).flatten ++ (b.close ++ ['x'])).length =
      count * b.deeper.length + (b.close.length + 1) := by
    simp
  have hsame := congrArg List.length (hone.close?_getD_eq hnat)
  rw [close?_deeply_uint32 b wraps, close?_deeply_nat b deep, List.length_take, List.length_take,
    Option.getD_some, Option.getD_none, hlength] at hsame
  omega

/-- The sign of a block comment so often that its depth starts again from zero, and one that
closes it. The comment ends there, where counting without a limit goes on to the end of the text. -/
theorem deep_comment_ends_early :
    (Scanner.after grammar (comment.deeply (2 ^ 32)) 1).stack =
        (Scanner.after grammar (comment.deeply (2 ^ 32)) 0).stack.push comment.mode ∧
      ¬ ∃ inside, (Scanner.after grammar (comment.deeply (2 ^ 32)) 0).rest =
          comment.opener ++ inside ∧
        comment.IsOneToken Nat (comment.deeply (2 ^ 32))
          (Scanner.after grammar (comment.deeply (2 ^ 32)) 0) inside :=
  ⟨(after_deeply comment (2 ^ 32)).2, deeply_not_isOneToken comment (by decide) (by decide)⟩

end
end Bracketed
end Liquidsoap
end LiquidsoapHighlight
