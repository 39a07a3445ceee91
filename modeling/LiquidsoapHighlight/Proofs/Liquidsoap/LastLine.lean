import LiquidsoapHighlight.Proofs.Grammar.Outline
import LiquidsoapHighlight.Proofs.Liquidsoap.Comment
import LiquidsoapHighlight.Proofs.Regex.Continuation
import LiquidsoapHighlight.Proofs.Token.Placed
import LiquidsoapHighlight.Proofs.Token.Seam

/-!
The line break at the end of a text. Where an expression is scanned it is blank space, and it ends a
line comment; in any other construct it is a part of this construct, which is then still open.
-/

namespace LiquidsoapHighlight

/-- A match of the rule can have a line break in it. -/
def Rule.mayTakeLineBreak (rule : Rule) : Bool :=
  rule.pattern.outline?.all fun r => !r.avoids '\n'

theorem Rule.mayTakeLineBreak_of_mem {rule : Rule} {text : List Char} {count : Nat}
    (h : rule.pattern.matchCount? text = some count) (hmem : '\n' ∈ text.take count) :
    rule.mayTakeLineBreak = true := by
  simp only [mayTakeLineBreak, Option.all_eq_true, Bool.not_eq_true']
  intro r hr
  rw [← Bool.not_eq_true]
  intro havoids
  exact Regex.not_mem_of_avoids havoids (Pattern.take_mem_outline h hr) hmem

namespace Liquidsoap

/-- The kinds of the constructs that can go on over the end of a line. -/
def spanningKinds : List TokenKind := [.string, .comment, .pragma]

theorem expression_lineBreak {mode : Mode} (h : mode.scansExpressions = true) :
    ∀ rule ∈ rules mode, rule.mayTakeLineBreak = true →
      rule.kind = .plain ∧ rule.transition = .stay := by
  cases mode with
  | topLevel | doubleInterpolation | singleInterpolation | braces => decide +kernel
  | _ => cases h

theorem construct_lineBreak {mode : Mode} (h : mode.scansExpressions = false)
    (hline : mode ≠ .lineComment) :
    ∀ rule ∈ rules mode, rule.mayTakeLineBreak = true →
      rule.kind ∈ spanningKinds ∧ rule.transition = .stay := by
  cases mode with
  | blockComment | doubleString | singleString | annotationBlock => decide +kernel
  | lineComment => exact absurd rfl hline
  | _ => cases h

theorem move_lineBreak (below : List Char) :
    grammar.move .lineComment ('\n' :: below) = ⟨.plain, 1, .pop⟩ :=
  Grammar.move_of_find? ⟨"newline", .literal ['\n'], .plain, .pop⟩ rfl rfl rfl

/-- A line comment takes nothing together with a line break. -/
theorem lineComment_count_eq_one {rule : Rule} (hr : rule ∈ rules .lineComment)
    (h : rule.mayTakeLineBreak = true) {text : List Char} {count : Nat}
    (hm : rule.pattern.matchCount? text = some count) : count = 1 := by
  simp only [rules, lineCommentRules, List.mem_cons, List.not_mem_nil, or_false] at hr
  rcases hr with rfl | rfl | rfl | rfl
  · exact absurd h (by decide +kernel)
  · exact absurd h (by decide +kernel)
  · have hc := (Option.filter_eq_some_iff.mp hm).1
    exact (Option.some.inj (Option.ite_none_right_eq_some.mp hc).2).symm
  · have hc := (Option.filter_eq_some_iff.mp hm).1
    exact (Option.some.inj (Option.ite_none_left_eq_some.mp hc).2).symm

/-- A step in a line comment takes a line break only where the text starts with it. -/
theorem exists_below_of_mem {s t : Scanner} {p : Piece} (hm : s.stack.top.mode = .lineComment)
    (hn : s.next? grammar = some (p, t)) (hp : '\n' ∈ p.token.text) :
    ∃ below, s.rest = '\n' :: below := by
  -- The rule for any other character takes line breaks too, but it is not the first to match there.
  obtain ⟨rule, hr, count, hcount, rfl, rfl⟩ := exists_rule hn
  obtain rfl := lineComment_count_eq_one (hm ▸ hr) (rule.mayTakeLineBreak_of_mem hcount hp) hcount
  cases hrest : s.rest with
  | nil => simp [hrest] at hp
  | cons c below =>
      rw [hrest] at hp
      obtain rfl := List.mem_singleton.mp hp
      exact ⟨below, rfl⟩

theorem step_lineComment {s t : Scanner} {p : Piece} (hs : WellNested s.stack.frames)
    (hm : s.stack.top.mode = .lineComment) (hn : s.next? grammar = some (p, t))
    (hp : p.token.text.getLast? = some '\n') :
    p.token.kind = .plain ∧ t.stack.top.mode.scansExpressions = true := by
  obtain ⟨below, hrest⟩ := exists_below_of_mem hm hn (List.mem_of_getLast? hp)
  have hmove := move_lineBreak below
  rw [← hrest, ← hm] at hmove
  rw [Scanner.next?_of_move (hrest ▸ List.cons_ne_nil _ _) hmove] at hn
  obtain ⟨rfl, rfl⟩ := Prod.mk.inj (Option.some.inj hn)
  exact ⟨rfl, scansExpressions_pop hs (hm ▸ nofun)⟩

/-- A step that takes a line break at its end leaves an expression to be scanned if the line break
is blank space, and otherwise the construct that it is a part of. -/
theorem step_lineBreak {s t : Scanner} {p : Piece} (hs : WellNested s.stack.frames)
    (hn : s.next? grammar = some (p, t)) (hp : p.token.text.getLast? = some '\n') :
    p.token.kind = .plain ∧ t.stack.top.mode.scansExpressions = true ∨
      p.token.kind ∈ spanningKinds ∧ t.stack.top.mode.scansExpressions = false := by
  by_cases hline : s.stack.top.mode = .lineComment
  · exact .inl (step_lineComment hs hline hn hp)
  · obtain ⟨rule, hr, count, hm, rfl, rfl⟩ := exists_rule hn
    have hmay := rule.mayTakeLineBreak_of_mem hm (List.mem_of_getLast? hp)
    cases hx : s.stack.top.mode.scansExpressions with
    | true =>
        obtain ⟨hkind, hstay⟩ := expression_lineBreak hx rule hr hmay
        rw [hstay]
        exact .inl ⟨hkind, hx⟩
    | false =>
        obtain ⟨hkind, hstay⟩ := construct_lineBreak hx hline rule hr hmay
        rw [hstay]
        exact .inr ⟨hkind, hx⟩

/-- The state at the end of a text. -/
def lastState (text : List Char) : Scanner :=
  (Scanner.start text).stateAfter (Scanner.steps grammar text)

/-- The text ends with a line break in a construct that is still open. -/
def EndsInside (text : List Char) : Prop :=
  text.getLast? = some '\n' ∧ (lastState text).stack.top.mode.scansExpressions = false

instance (text : List Char) : Decidable (EndsInside text) :=
  inferInstanceAs (Decidable (_ ∧ _))

/-- The kinds that the last line break of a text can have: it is blank space, or a part of the
construct that is still open. -/
def EndsAs (text : List Char) (kind : TokenKind) : Prop :=
  kind = .plain ∧ ¬ EndsInside text ∨ kind ∈ spanningKinds ∧ EndsInside text

theorem exists_lastPiece {text : List Char} (h : text.getLast? = some '\n') :
    ∃ front p, Scanner.pieces grammar text = front ++ [p] ∧ p.token.text.getLast? = some '\n' ∧
      EndsAs text p.token.kind := by
  have htrace := Scanner.trace_steps grammar text
  have htext : text = Scanner.taken (Scanner.steps grammar text) ++ _ := htrace.rest_eq
  rw [Scanner.rest_steps_eq_nil, List.append_nil] at htext
  simp only [EndsAs, EndsInside, lastState, Scanner.pieces]
  generalize Scanner.steps grammar text = steps at htrace htext
  rcases List.eq_nil_or_concat' steps with rfl | ⟨front, ⟨p, t⟩, rfl⟩
  · rw [htext] at h
    cases h
  · obtain ⟨hfront, hlast⟩ := Scanner.trace_append.mp htrace
    have hs := hfront.preserves (P := fun s => WellNested s.stack.frames) wellNested_next
      (wellNested_start text)
    cases hlast with
    | step hn _ =>
        rw [Scanner.stateAfter_append, Scanner.stateAfter_cons, Scanner.stateAfter_nil,
          List.map_append]
        have hp : p.token.text.getLast? = some '\n' := by
          rwa [htext, Scanner.taken_concat,
            List.getLast?_append_of_ne_nil _ (Scanner.next?_takes hn).1] at h
        refine ⟨_, p, rfl, hp, ?_⟩
        obtain ⟨hkind, hx⟩ | ⟨hkind, hx⟩ := step_lineBreak hs hn hp
        · exact .inl ⟨hkind, fun hinside => by rw [hx] at hinside; cases hinside.2⟩
        · exact .inr ⟨hkind, h, hx⟩

/-- The last line break of a text is in the last token, which has its kind. -/
theorem exists_lastToken {text : List Char} (h : text.getLast? = some '\n') :
    ∃ last, (Token.scan grammar text).getLast? = some last ∧ last.text.getLast? = some '\n' ∧
      EndsAs text last.kind := by
  obtain ⟨init, p, hpieces, hp, hkind⟩ := exists_lastPiece h
  obtain ⟨q, rest, hq⟩ := List.exists_cons_of_ne_nil (List.concat_ne_nil p init)
  obtain ⟨front, first, run, hsplit, hchain, hstarts⟩ := Token.exists_lastRun q rest
  have hlast : (first :: run).getLast? = some p := by
    rw [← List.getLast?_append_of_ne_nil front (List.cons_ne_nil _ _), ← hsplit, ← hq,
      List.getLast?_concat]
  obtain ⟨others, hrun⟩ := List.getLast?_eq_some_iff.mp hlast
  refine ⟨Token.joined first run, ?_, ?_, ?_⟩
  · rw [Token.scan, hpieces, hq, hsplit, Token.coalesce_last hchain hstarts, List.getLast?_concat]
  · have hne : p.token.text ≠ [] := by
      intro hnil
      rw [hnil] at hp
      cases hp
    rw [Token.joined, hrun, List.flatMap_append, List.flatMap_singleton,
      List.getLast?_append_of_ne_nil _ hne, hp]
  · rwa [Token.joined, ← Token.kind_of_getLast? hchain p hlast]

/-- Where tokens are written so that only bare ones end as their texts do, what is written ends with
a line break if the text does and leaves no construct open there. -/
theorem getLast?_written (bare : TokenKind → Prop) {text : List Char} {write : Token → List Char}
    (hwrite : ∀ t ∈ Token.scan grammar text, write t ≠ [] ∧
      ((write t).getLast? = some '\n' ↔ bare t.kind ∧ t.text.getLast? = some '\n'))
    (hplain : bare .plain) (hspanning : ∀ kind ∈ spanningKinds, ¬ bare kind) :
    ((Token.scan grammar text).flatMap write).getLast? = some '\n' ↔
      text.getLast? = some '\n' ∧ ¬ EndsInside text := by
  obtain ⟨hplaced, htexts⟩ := Scanner.placed_scan grammar text
  rcases List.eq_nil_or_concat' (Token.scan grammar text) with hnil | ⟨front, last, hlast⟩
  · rw [hnil] at htexts ⊢
    rw [← htexts]
    exact ⟨nofun, nofun⟩
  · have hmem : last ∈ Token.scan grammar text := hlast ▸ List.mem_concat_self
    obtain ⟨hne, hend⟩ := hwrite last hmem
    have htext : text.getLast? = last.text.getLast? := by
      rw [← htexts, hlast, Token.texts, List.flatMap_append, List.flatMap_singleton,
        List.getLast?_append_of_ne_nil _ (hplaced.exists_around hmem).1]
    have hkind : text.getLast? = some '\n' → EndsAs text last.kind := by
      intro h
      obtain ⟨final, hfinal, _, hkind⟩ := exists_lastToken h
      rw [hlast, List.getLast?_concat] at hfinal
      obtain rfl := Option.some.inj hfinal
      exact hkind
    rw [hlast, List.flatMap_append, List.flatMap_singleton, List.getLast?_append_of_ne_nil _ hne,
      hend, ← htext]
    constructor
    · rintro ⟨hbare, h⟩
      obtain ⟨_, hopen⟩ | ⟨hspans, _⟩ := hkind h
      · exact ⟨h, hopen⟩
      · exact absurd hbare (hspanning _ hspans)
    · rintro ⟨h, hopen⟩
      obtain ⟨hk, _⟩ | ⟨_, hinside⟩ := hkind h
      · exact ⟨hk ▸ hplain, h⟩
      · exact absurd hinside hopen

end Liquidsoap
end LiquidsoapHighlight
