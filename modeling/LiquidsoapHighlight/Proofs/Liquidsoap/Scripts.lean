import LiquidsoapHighlight.Proofs.Liquidsoap.HoleScan
import LiquidsoapHighlight.Proofs.Relevance.Totals
import LiquidsoapHighlight.Proofs.Scanner.Origins
import LiquidsoapHighlight.Proofs.Scanner.Renaming

/-!
Scripts one after another. A script that leaves no construct open and ends with a line break does
not change how the next one is scanned, nor is it changed by it: only blank space at its end may go
on.
-/

namespace LiquidsoapHighlight

theorem Relevance.total_shift {weight : Evidence → Nat} (offset : Nat) (tokens : List Token) :
    total weight (tokens.map (Token.shift offset)) = total weight tokens := by
  have hshift : ∀ t : Token, evidence? (t.shift offset) = evidence? t :=
    fun _ => evidence?_congr rfl rfl
  exact total_map hshift tokens

namespace Scanner
variable {g : Grammar}

/-- The same state in a text that goes on. -/
def extend (ending : List Char) (s : Scanner) : Scanner := { s with rest := s.rest ++ ending }

theorem next?_extend {s t : Scanner} {p : Piece} {ending : List Char}
    (hn : s.next? g = some (p, t))
    (hm : g.move s.stack.top.mode (s.rest ++ ending) = g.move s.stack.top.mode s.rest) :
    (s.extend ending).next? g = some (p, t.extend ending) := by
  obtain ⟨hne, move, hmove, rfl, rfl⟩ := move_of_next? hn
  have hle := (g.move_count_bounds s.stack.top.mode hne).2
  rw [← hmove] at hm hle
  exact next?_of_move_append rfl (List.append_ne_nil_of_left_ne_nil hne _) hm hle

/-- Steps that leave some of the text are made in the same way in a text that goes on, if each of
them by itself is. -/
theorem Trace.extend (ending : List Char)
    (hm : ∀ {s t : Scanner} {p : Piece}, s.next? g = some (p, t) → t.rest ≠ [] →
      g.move s.stack.top.mode (s.rest ++ ending) = g.move s.stack.top.mode s.rest)
    {s : Scanner} {steps : List (Piece × Scanner)} (h : Trace g s steps)
    (hend : (s.stateAfter steps).rest ≠ []) :
    Trace g (s.extend ending) (steps.map (Prod.map id (Scanner.extend ending))) ∧
      (s.extend ending).stateAfter (steps.map (Prod.map id (Scanner.extend ending))) =
        (s.stateAfter steps).extend ending := by
  induction h with
  | done s => exact ⟨.done _, rfl⟩
  | @step s t p steps hn ht ih =>
      rw [stateAfter_cons] at hend
      obtain ⟨htrace, hafter⟩ := ih hend
      have hrest : t.rest ≠ [] := by
        rw [ht.rest_eq]
        exact List.append_ne_nil_of_right_ne_nil _ hend
      rw [List.map_cons, stateAfter_cons, stateAfter_cons]
      exact ⟨.step (next?_extend hn (hm hn hrest)) htrace, hafter⟩

end Scanner

namespace Liquidsoap

/-- The names that a text has after another one, of which the scan has come to its end. -/
def following (s : Scanner) : Renaming := ⟨id, id, s.offset, s.stack.pushes⟩

theorem following_fits (s : Scanner) : (following s).Fits grammar where
  size _ := rfl
  injective := Function.injective_id
  move mode text := by
    have hmove : ∀ m : Move, (following s).move m = m := by
      rintro ⟨kind, count, t⟩
      cases t <;> rfl
    rw [hmove]
    exact congrArg (grammar.move mode) (List.map_id text)
  encloses _ := rfl
  topLevel := rfl
  lowest mode _ h := move_ne_push_topLevel mode h

theorem following_token (s : Scanner) : (following s).token = Token.shift s.offset := by
  funext t
  simp [Renaming.token, Token.shift, following]

/-- The state after a text that leaves nothing open is that of a new scan, but for the pushes and
bytes so far. -/
structure AtSeam (text : List Char) (s : Scanner) : Prop where
  rest : s.rest = []
  offset : s.offset = Text.byteLength text
  stack : s.stack = ⟨⟨.topLevel, 0, 0⟩, [], s.stack.pushes⟩

/-- With only the top level open, the stack is that of a new scan, but for the pushes so far. -/
theorem stack_of_ends {text : List Char} {s : Scanner} {steps : List (Piece × Scanner)}
    (ht : Scanner.Trace grammar (.start text) steps)
    (hs : (Scanner.start text).stateAfter steps = s) (h : s.stack.modes = [.topLevel]) :
    s.stack = ⟨⟨.topLevel, 0, 0⟩, [], s.stack.pushes⟩ := by
  have hnested := ht.preserves (P := fun s => WellNested s.stack.frames) wellNested_next
    (wellNested_start text)
  have hlowest := ht.preserves (P := fun s => [(Mode.topLevel, 0)] <:+ s.stack.entries)
    Scanner.lowest_next (List.suffix_refl _)
  rw [hs] at hnested hlowest
  generalize s.stack = stack at *
  have hbelow := below_of_modes h
  obtain ⟨⟨mode, depth, serial⟩, below, pushes⟩ := stack
  obtain rfl : below = [] := hbelow
  obtain ⟨rfl, rfl⟩ := Prod.mk.inj (List.cons.inj (hlowest.eq_of_length rfl)).1
  have hdepth : depth = 0 := (hnested.inExpression rfl).depth_eq_zero _ List.mem_cons_self
  rw [hdepth]

theorem atSeam_of_ends {text : List Char}
    (h : ((Scanner.start text).stateAfter (Scanner.steps grammar text)).stack.modes =
      [.topLevel]) :
    AtSeam text ((Scanner.start text).stateAfter (Scanner.steps grammar text)) := by
  have htrace := Scanner.trace_steps grammar text
  have hrest := Scanner.rest_steps_eq_nil grammar text
  refine ⟨hrest, ?_, stack_of_ends htrace rfl h⟩
  have htaken := htrace.rest_eq
  rw [hrest, List.append_nil] at htaken
  rw [htrace.offset_eq, ← htaken]
  exact Nat.zero_add _

namespace AtSeam
variable {text : List Char} {s : Scanner}

theorem following_stack (h : AtSeam text s) : (following s).stack .initial = s.stack := by
  rw [h.stack]
  simp [Renaming.stack, Renaming.frame, following, ModeStack.initial]

theorem following_start (h : AtSeam text s) (next : List Char) :
    (following s).scanner (.start next) = s.extend next := by
  have hoffset : (Scanner.start next).offset + (following s).offset = s.offset := Nat.zero_add _
  have hrest : next.map (following s).char = s.rest ++ next := by
    rw [h.rest]
    exact List.map_id next
  rw [Renaming.scanner, hoffset, Scanner.start, hrest, h.following_stack]
  rfl

end AtSeam

/-- Steps up to a state that the next text by itself comes to as well are followed by the steps of
that text. -/
theorem steps_following {s : Scanner} {text next : List Char} {steps : List (Piece × Scanner)}
    {first rest : List (Piece × Scanner)} (ht : Scanner.Trace grammar (.start text) steps)
    (hsteps : Scanner.steps grammar next = first ++ rest)
    (hafter : (Scanner.start text).stateAfter steps =
      (following s).scanner ((Scanner.start next).stateAfter first)) :
    Scanner.steps grammar text = steps ++ rest.map (following s).step := by
  have hnext := Scanner.trace_steps grammar next
  have hend := Scanner.rest_steps_eq_nil grammar next
  rw [hsteps] at hnext hend
  rw [Scanner.stateAfter_append] at hend
  obtain ⟨htrace, hlast⟩ := (following_fits s).trace (Scanner.trace_append.mp hnext).2
  rw [← hafter] at htrace hlast
  symm
  refine Scanner.Trace.eq_steps (Scanner.trace_append.mpr ⟨ht, htrace⟩) ?_
  rw [Scanner.stateAfter_append, hlast]
  exact congrArg (List.map id) hend

def blank : CharClass := ⟨false, Text.blank⟩

theorem move_blank {text : List Char} (h : text.takeWhile blank.contains ≠ []) :
    grammar.move .topLevel text = ⟨.plain, (text.takeWhile blank.contains).length, .stay⟩ := by
  have hmatch := (isRun_whitespace.matchCount? text).trans (if_neg h)
  have hrules : grammar.rules? .topLevel = some topLevelRules := rfl
  exact Grammar.move_eq hrules (Grammar.firstMatch?_cons_some _ hmatch)

/-- At the top level, only blank space goes on over a line break. -/
theorem move_topLevel_lineBreak {text : List Char} (hne : text ≠ [])
    (h : text.takeWhile blank.contains ≠ text) (below : List Char) :
    grammar.move .topLevel (text ++ '\n' :: below) = grammar.move .topLevel text := by
  have hrules : ∀ rule ∈ topLevelRules,
      rule.pattern.matchCount? (text ++ '\n' :: below) = rule.pattern.matchCount? text :=
    List.forall_mem_cons.mpr ⟨isRun_whitespace.matchCount?_append h _, fun rule hr =>
      Pattern.matchCount?_append (Pattern.stopsAt_of_avoids (avoids_topLevelRules rule hr) _ _) hne⟩
  obtain ⟨rule, _, count, hf, _⟩ := exists_firstMatch .topLevel hne
  rw [move_of_firstMatch hf]
  exact move_of_firstMatch ((Grammar.firstMatch?_congr hrules).trans hf)

theorem steps_lineBreak (below : List Char) :
    ∃ rest, Scanner.steps grammar ('\n' :: below) =
      (⟨⟨.plain, 0, '\n' :: below.takeWhile blank.contains⟩, none⟩,
        ⟨Text.byteLength ('\n' :: below.takeWhile blank.contains), below.dropWhile blank.contains,
          .initial⟩) :: rest := by
  have hrun : ('\n' :: below).takeWhile blank.contains = '\n' :: below.takeWhile blank.contains :=
    rfl
  have hsplit : (Scanner.start ('\n' :: below)).rest =
      '\n' :: below.takeWhile blank.contains ++ below.dropWhile blank.contains :=
    congrArg (List.cons '\n') List.takeWhile_append_dropWhile.symm
  have hmove := move_blank (hrun ▸ List.cons_ne_nil _ _)
  rw [hrun] at hmove
  have hnext := Scanner.next?_eq_some hsplit (List.cons_ne_nil _ _) hmove
  rw [← Nat.zero_add (Text.byteLength _)]
  exact Scanner.exists_steps_eq_cons hnext

/-- The last step before a line break at the top level is made as at the end of the text, unless it
takes blank space. -/
theorem move_last {s t : Scanner} {p : Piece} (hn : s.next? grammar = some (p, t))
    (hmode : t.stack.top.mode = .topLevel) (below : List Char) :
    grammar.move s.stack.top.mode (s.rest ++ '\n' :: below) =
        grammar.move s.stack.top.mode s.rest ∨
      s.stack = t.stack ∧ s.rest.takeWhile blank.contains = s.rest := by
  obtain ⟨hne, move, hmove, _, rfl⟩ := Scanner.move_of_next? hn
  by_cases hstay : move.transition = .stay
  · have hstack : s.stack.apply move.transition = s.stack := by rw [hstay]; rfl
    have htop : s.stack.top.mode = .topLevel := by rwa [hstack] at hmode
    by_cases hblank : s.rest.takeWhile blank.contains = s.rest
    · exact .inr ⟨hstack.symm, hblank⟩
    · rw [htop]
      exact .inl (move_topLevel_lineBreak hne hblank below)
  · exact .inl (move_append_lineBreak hne (.inr (hmove ▸ hstay)) below)

theorem move_inner {s t : Scanner} {p : Piece} (hn : s.next? grammar = some (p, t))
    (hrest : t.rest ≠ []) (below : List Char) :
    grammar.move s.stack.top.mode (s.rest ++ '\n' :: below) =
      grammar.move s.stack.top.mode s.rest := by
  obtain ⟨hne, move, hmove, _, rfl⟩ := Scanner.move_of_next? hn
  have hlt : move.count < s.rest.length :=
    Nat.lt_of_not_le fun hle => hrest (List.drop_eq_nil_of_le hle)
  exact move_append_lineBreak hne (.inl (hmove ▸ hlt)) below

/-- A step over blank space to the end of the text. -/
theorem next?_blank {s t : Scanner} {p : Piece} (hn : s.next? grammar = some (p, t))
    (htop : s.stack.top.mode = .topLevel) (hblank : s.rest.takeWhile blank.contains = s.rest) :
    p = ⟨⟨.plain, s.offset, s.rest⟩, grammar.construct? s.stack .stay⟩ ∧
      t.offset = s.offset + Text.byteLength s.rest := by
  obtain ⟨hne, move, hmove, hp, hoffset⟩ := Scanner.move_of_next? hn
  rw [htop, move_blank (by rwa [hblank]), hblank] at hmove
  rw [hmove, List.take_length] at hp
  refine ⟨hp, ?_⟩
  rw [hoffset, hp]
  rfl

/-- Blank space at the end of a text goes on with that of the next one. -/
theorem next?_blank_append {s t : Scanner} {p : Piece} {text below : List Char}
    (ht : AtSeam text t) (hn : s.next? grammar = some (p, t)) (hstack : s.stack = t.stack)
    (hblank : s.rest.takeWhile blank.contains = s.rest) {first : Piece × Scanner}
    {rest : List (Piece × Scanner)}
    (hsteps : Scanner.steps grammar ('\n' :: below) = first :: rest) :
    p.token.kind = .plain ∧ first.1.token.kind = .plain ∧
      (s.extend ('\n' :: below)).next? grammar =
        some (p.joinText ((following t).piece first.1), (following t).scanner first.2) := by
  obtain ⟨_, hfirst⟩ := steps_lineBreak below
  obtain ⟨rfl, _⟩ := List.cons.inj (hsteps.symm.trans hfirst)
  have htop : s.stack.top.mode = .topLevel := by rw [hstack, ht.stack]
  obtain ⟨hp, hstop⟩ := next?_blank hn htop hblank
  have hne : s.rest ++ '\n' :: below.takeWhile blank.contains ≠ [] :=
    List.append_ne_nil_of_right_ne_nil _ (List.cons_ne_nil _ _)
  -- The blank space of both texts is one run, which is taken by one step.
  have hrun : (s.rest ++ '\n' :: below).takeWhile blank.contains =
      s.rest ++ '\n' :: below.takeWhile blank.contains := by
    rw [List.takeWhile_append, if_pos (congrArg List.length hblank)]
    rfl
  have hlonger := move_blank (hrun ▸ hne)
  rw [hrun, ← htop] at hlonger
  have hsplit : (s.extend ('\n' :: below)).rest =
      (s.rest ++ '\n' :: below.takeWhile blank.contains) ++ below.dropWhile blank.contains := by
    rw [List.append_assoc, List.cons_append, List.takeWhile_append_dropWhile]
    rfl
  have hnext := Scanner.next?_eq_some hsplit hne hlonger
  have hpiece : p.joinText
      ((following t).piece ⟨⟨.plain, 0, '\n' :: below.takeWhile blank.contains⟩, none⟩) =
      ⟨⟨.plain, s.offset, s.rest ++ '\n' :: below.takeWhile blank.contains⟩,
        grammar.construct? s.stack .stay⟩ := by
    rw [hp]
    simp [Piece.joinText, Renaming.piece, Renaming.token, following]
  have hscanner : (following t).scanner
      ⟨Text.byteLength ('\n' :: below.takeWhile blank.contains), below.dropWhile blank.contains,
        .initial⟩ =
      ⟨s.offset + Text.byteLength (s.rest ++ '\n' :: below.takeWhile blank.contains),
        below.dropWhile blank.contains, s.stack⟩ := by
    rw [Renaming.scanner, ht.following_stack, ← hstack, Text.byteLength_append, ← Nat.add_assoc,
      ← hstop, Nat.add_comm t.offset]
    exact congrArg (Scanner.mk _ · _) (List.map_id _)
  refine ⟨by rw [hp], rfl, ?_⟩
  rw [hpiece, hscanner]
  exact hnext

/-- The pieces of two texts are those of both by themselves, if the first one is scanned as before
up to the second one. -/
theorem pieces_append {s : Scanner} {text next : List Char} (hs : AtSeam text s)
    (ht : Scanner.Trace grammar (.start (text ++ next))
      ((Scanner.steps grammar text).map (Prod.map id (Scanner.extend next))))
    (hafter : (Scanner.start (text ++ next)).stateAfter
      ((Scanner.steps grammar text).map (Prod.map id (Scanner.extend next))) = s.extend next) :
    Scanner.pieces grammar (text ++ next) =
      Scanner.pieces grammar text ++ (Scanner.pieces grammar next).map (following s).piece := by
  have hall := steps_following ht (List.nil_append _).symm
    (hafter.trans (hs.following_start next).symm)
  rw [Scanner.pieces, hall, List.map_append, Renaming.map_fst_step, List.map_map]
  rfl

/-- Blank space at the end of the first text is one piece with that of the second one, which gives
the same tokens. -/
theorem coalesce_pieces_blank {s t : Scanner} {p : Piece} {text below : List Char}
    {front : List (Piece × Scanner)} (ht : AtSeam text t)
    (hsteps : Scanner.steps grammar text = front ++ [(p, t)])
    (hfront : Scanner.Trace grammar (.start (text ++ '\n' :: below))
      (front.map (Prod.map id (Scanner.extend ('\n' :: below)))))
    (hafter : (Scanner.start (text ++ '\n' :: below)).stateAfter
      (front.map (Prod.map id (Scanner.extend ('\n' :: below)))) = s.extend ('\n' :: below))
    (hn : s.next? grammar = some (p, t)) (hstack : s.stack = t.stack)
    (hblank : s.rest.takeWhile blank.contains = s.rest) :
    Token.coalesce (Scanner.pieces grammar (text ++ '\n' :: below)) = Token.coalesce
      (Scanner.pieces grammar text ++
        (Scanner.pieces grammar ('\n' :: below)).map (following t).piece) := by
  obtain ⟨first, rest, hnext⟩ : ∃ first rest, Scanner.steps grammar ('\n' :: below) =
      first :: rest := ⟨_, steps_lineBreak below⟩
  obtain ⟨hp, hfirst, hn'⟩ := next?_blank_append ht hn hstack hblank hnext
  rw [← hafter] at hn'
  have hnext' : Scanner.steps grammar ('\n' :: below) = [first] ++ rest := hnext
  have hall := steps_following (Scanner.trace_append.mpr ⟨hfront, .step hn' (.done _)⟩) hnext'
    (by rw [Scanner.stateAfter_append]; rfl)
  have hjoin := Token.coalesce_joinText (front.map Prod.fst) hp
    (q := (following t).piece first.1) hfirst (rest.map ((following t).piece ∘ Prod.fst))
  simp only [Scanner.pieces, hall, hsteps, hnext, List.map_append, List.map_map, List.map_cons,
    List.append_assoc]
  exact hjoin

/-- Before a line break at the top level, the tokens are those of the pieces of both texts. -/
theorem coalesce_pieces_append {s : Scanner} {text : List Char}
    (hs : s = (Scanner.start text).stateAfter (Scanner.steps grammar text)) (h : AtSeam text s)
    (below : List Char) :
    Token.coalesce (Scanner.pieces grammar (text ++ '\n' :: below)) = Token.coalesce
      (Scanner.pieces grammar text ++
        (Scanner.pieces grammar ('\n' :: below)).map (following s).piece) := by
  have htrace := Scanner.trace_steps grammar text
  rcases List.eq_nil_or_concat' (Scanner.steps grammar text) with hnil | ⟨front, ⟨p, t⟩, hsteps⟩
  · rw [hnil] at hs
    rw [pieces_append h]
    · rw [hnil]
      exact .done _
    · rw [hnil, hs]
      rfl
  · rw [hsteps, Scanner.stateAfter_append] at hs
    obtain rfl : s = t := hs
    rw [hsteps] at htrace
    obtain ⟨hfront, hlast⟩ := Scanner.trace_append.mp htrace
    cases hlast with
    | step hn _ =>
        obtain ⟨hne, _⟩ := Scanner.move_of_next? hn
        -- All steps but the last one leave some of the text, and do not see the line break.
        obtain ⟨hfront', hafter⟩ := hfront.extend ('\n' :: below)
          (fun hn' hrest => move_inner hn' hrest below) hne
        obtain hsame | ⟨hstack, hblank⟩ := move_last hn (by rw [h.stack]) below
        · have hn' := Scanner.next?_extend hn hsame
          rw [← hafter] at hn'
          rw [pieces_append h]
          · rw [hsteps, List.map_append]
            exact Scanner.trace_append.mpr ⟨hfront', .step hn' (.done _)⟩
          · rw [hsteps, List.map_append, Scanner.stateAfter_append]
            rfl
        · exact coalesce_pieces_blank h hsteps hfront' hafter hn hstack hblank

/-- A line break at the top level stands between scripts that are scanned apart. Plain text on both
sides of it is one token, and the evidence in both scripts adds up. -/
theorem scan_append_lineBreak {text : List Char}
    (h : ((Scanner.start text).stateAfter (Scanner.steps grammar text)).stack.modes = [.topLevel])
    (below : List Char) :
    Token.scan grammar (text ++ '\n' :: below) =
        Token.joinSeam (Token.scan grammar text)
          ((Token.scan grammar ('\n' :: below)).map (Token.shift (Text.byteLength text))) ∧
      Relevance.total Evidence.distinctiveWeight (Token.scan grammar (text ++ '\n' :: below)) =
        Relevance.total Evidence.distinctiveWeight (Token.scan grammar text) +
          Relevance.total Evidence.distinctiveWeight (Token.scan grammar ('\n' :: below)) ∧
      Relevance.total Evidence.supportingWeight (Token.scan grammar (text ++ '\n' :: below)) =
        Relevance.total Evidence.supportingWeight (Token.scan grammar text) +
          Relevance.total Evidence.supportingWeight (Token.scan grammar ('\n' :: below)) := by
  have hseam := atSeam_of_ends h
  have hscan : Token.scan grammar (text ++ '\n' :: below) =
      Token.joinSeam (Token.scan grammar text)
        ((Token.scan grammar ('\n' :: below)).map (Token.shift (Text.byteLength text))) := by
    obtain ⟨rest, hnext⟩ := steps_lineBreak below
    rw [Token.scan, coalesce_pieces_append rfl hseam, Token.scan, Token.scan, ← hseam.offset,
      ← following_token, ← Renaming.coalesce_map]
    simp only [Scanner.pieces, hnext, List.map_cons]
    exact Token.coalesce_append_plain _ rfl _
  have htotal : ∀ weight : Evidence → Nat,
      Relevance.total weight (Token.scan grammar (text ++ '\n' :: below)) =
        Relevance.total weight (Token.scan grammar text) +
          Relevance.total weight (Token.scan grammar ('\n' :: below)) := by
    intro weight
    rw [hscan, Relevance.total_joinSeam, Relevance.total_shift]
  exact ⟨hscan, htotal _, htotal _⟩

/-- A script with blank space at its end. -/
def crossfadeSetting : List Char := "crossfade(x, 5s) ".toList

/-- The blank space goes on into the next script, which has a directive. -/
theorem crossfadeSetting_before_include :
    ((Scanner.start crossfadeSetting).stateAfter
        (Scanner.steps grammar crossfadeSetting)).stack.modes = [.topLevel] ∧
      Token.scan grammar (crossfadeSetting ++ '\n' :: " %include".toList) =
        Token.joinSeam (Token.scan grammar crossfadeSetting)
          ((Token.scan grammar ('\n' :: " %include".toList)).map
            (Token.shift (Text.byteLength crossfadeSetting))) ∧
      Relevance.total Evidence.distinctiveWeight
        (Token.scan grammar (crossfadeSetting ++ '\n' :: " %include".toList)) = 7 := by
  have hends : ((Scanner.start crossfadeSetting).stateAfter
      (Scanner.steps grammar crossfadeSetting)).stack.modes = [.topLevel] := by decide +kernel
  obtain ⟨hscan, hdistinctive, _⟩ := scan_append_lineBreak hends " %include".toList
  refine ⟨hends, hscan, hdistinctive.trans ?_⟩
  decide +kernel

end Liquidsoap
end LiquidsoapHighlight
