import LiquidsoapHighlight.Proofs.Scanner.Trace
import LiquidsoapHighlight.Proofs.Token.Runs

/-!
Scans with other names. A grammar that does the same with other characters and modes scans a renamed
text by the renamed steps. The offsets and serial numbers may go on from those of a text before it.
-/

namespace LiquidsoapHighlight

/-- Other names for characters and modes, and the bytes and pushes that come before. -/
structure Renaming where
  char : Char → Char
  mode : Mode → Mode
  offset : Nat
  pushes : UInt32

namespace Renaming

def transition (r : Renaming) : Transition → Transition
  | .push mode => .push (r.mode mode)
  | .popTo mode => .popTo (r.mode mode)
  | t => t

def move (r : Renaming) (m : Move) : Move := { m with transition := r.transition m.transition }

/-- The lowest frame is not pushed, so that its serial number does not depend on the pushes. -/
def frame (r : Renaming) (f : Frame) : Frame :=
  ⟨r.mode f.mode, f.depth, if f.mode = .topLevel then f.serial else f.serial + r.pushes⟩

def stack (r : Renaming) (s : ModeStack) : ModeStack :=
  ⟨r.frame s.top, s.below.map r.frame, s.pushes + r.pushes⟩

def token (r : Renaming) (t : Token) : Token := ⟨t.kind, t.start + r.offset, t.text.map r.char⟩

def piece (r : Renaming) (p : Piece) : Piece := ⟨r.token p.token, p.construct.map (· + r.pushes)⟩

def scanner (r : Renaming) (s : Scanner) : Scanner :=
  ⟨s.offset + r.offset, s.rest.map r.char, r.stack s.stack⟩

def step (r : Renaming) (step : Piece × Scanner) : Piece × Scanner :=
  (r.piece step.1, r.scanner step.2)

theorem map_fst_step (r : Renaming) (steps : List (Piece × Scanner)) :
    (steps.map r.step).map Prod.fst = (steps.map Prod.fst).map r.piece := by
  rw [List.map_map, List.map_map]
  rfl

/-- The grammar does the same under the other names. The top level is never entered again, and it is
not the inside of a construct. -/
structure Fits (r : Renaming) (g : Grammar) : Prop where
  size : ∀ c, (r.char c).utf8Size = c.utf8Size
  injective : Function.Injective r.mode
  move : ∀ mode text, g.move (r.mode mode) (text.map r.char) = r.move (g.move mode text)
  encloses : ∀ mode, g.encloses (r.mode mode) = g.encloses mode
  topLevel : g.encloses .topLevel = false
  lowest : ∀ mode text, text ≠ [] → (g.move mode text).transition ≠ .push .topLevel

/-- The second rule does under the other names what the first one does. -/
structure RuleFor (r : Renaming) (rule other : Rule) : Prop where
  kind : other.kind = rule.kind
  transition : other.transition = r.transition rule.transition
  matchCount? : ∀ text, other.pattern.matchCount? (text.map r.char) = rule.pattern.matchCount? text

/-- The move that a match of a rule makes. -/
def moveOf (found : Rule × Nat) : Move := ⟨found.1.kind, found.2, found.1.transition⟩

theorem firstMatch?_of_forall₂ {r : Renaming} {rules others : List Rule}
    (h : List.Forall₂ r.RuleFor rules others) (text : List Char) :
    (Grammar.firstMatch? others (text.map r.char)).map moveOf =
      (Grammar.firstMatch? rules text).map fun found => r.move (moveOf found) := by
  induction h with
  | nil => rfl
  | @cons rule other rules others hrule _ ih =>
      have hmatch := hrule.matchCount? text
      cases hm : rule.pattern.matchCount? text with
      | none =>
          rw [Grammar.firstMatch?_cons_none rules hm,
            Grammar.firstMatch?_cons_none others (hmatch.trans hm), ih]
      | some count =>
          rw [Grammar.firstMatch?_cons_some rules hm,
            Grammar.firstMatch?_cons_some others (hmatch.trans hm), Option.map_some,
            Option.map_some, moveOf, hrule.kind, hrule.transition]
          rfl

/-- Modes with such rules have the same moves. -/
theorem move_of_forall₂ {r : Renaming} {g : Grammar} {mode : Mode} {rules others : List Rule}
    (h : List.Forall₂ r.RuleFor rules others) (hmode : g.rules? mode = some rules)
    {text : List Char}
    (hother : (g.rules? (r.mode mode)).bind (Grammar.firstMatch? · (text.map r.char)) =
      Grammar.firstMatch? others (text.map r.char)) :
    g.move (r.mode mode) (text.map r.char) = r.move (g.move mode text) := by
  have hfirst := firstMatch?_of_forall₂ h text
  rw [Grammar.move, Grammar.move, hother, hmode, Option.bind_some]
  cases hf : Grammar.firstMatch? rules text with
  | none =>
      rw [hf, Option.map_none, Option.map_eq_none_iff] at hfirst
      rw [hfirst]
      rfl
  | some found =>
      rw [hf, Option.map_some, Option.map_eq_some_iff] at hfirst
      obtain ⟨other, ho, hmove⟩ := hfirst
      rw [ho]
      exact hmove

theorem dropTo_map {r : Renaming} (h : Function.Injective r.mode) (mode : Mode) (top : Frame)
    (below : List Frame) :
    ModeStack.dropTo (r.mode mode) (r.frame top) (below.map r.frame) =
      (r.frame (ModeStack.dropTo mode top below).1,
        (ModeStack.dropTo mode top below).2.map r.frame) := by
  induction below generalizing top with
  | nil => rfl
  | cons next below ih =>
      have hmode : (r.frame top).mode = r.mode mode ↔ top.mode = mode := h.eq_iff
      simp only [List.map_cons, ModeStack.dropTo, hmode, ih]
      split <;> rfl

theorem pop_stack (r : Renaming) (s : ModeStack) : (r.stack s).pop = r.stack s.pop := by
  obtain ⟨top, below, pushes⟩ := s
  cases below <;> rfl

theorem apply_stack {r : Renaming} (h : Function.Injective r.mode) {t : Transition}
    (ht : t ≠ .push .topLevel) (s : ModeStack) :
    (r.stack s).apply (r.transition t) = r.stack (s.apply t) := by
  cases t with
  | stay | nest => rfl
  | push mode =>
      have hmode : mode ≠ .topLevel := fun hm => ht (congrArg Transition.push hm)
      have hserial : s.pushes + r.pushes + 1 = s.pushes + 1 + r.pushes := by ac_rfl
      simp only [transition, ModeStack.apply, ModeStack.push, stack, frame, ModeStack.frames,
        hmode, if_false, hserial, List.map_cons]
  | pop => exact r.pop_stack s
  | popTo mode =>
      simp only [transition, ModeStack.apply, ModeStack.popTo, stack, dropTo_map h]
  | unnest =>
      have hpop := r.pop_stack s
      change (r.stack s).unnest = r.stack s.unnest
      by_cases hd : s.top.depth = 0
      · have hd' : (r.stack s).top.depth = 0 := hd
        rw [ModeStack.unnest, ModeStack.unnest, if_pos hd, if_pos hd', hpop]
      · have hd' : ¬ (r.stack s).top.depth = 0 := hd
        rw [ModeStack.unnest, ModeStack.unnest, if_neg hd, if_neg hd']
        rfl

theorem byteLength_map {r : Renaming} (h : ∀ c, (r.char c).utf8Size = c.utf8Size)
    (text : List Char) : Text.byteLength (text.map r.char) = Text.byteLength text := by
  induction text with
  | nil => rfl
  | cons c text ih => rw [List.map_cons, Text.byteLength_cons, Text.byteLength_cons, h, ih]

theorem stop_token {r : Renaming} (h : ∀ c, (r.char c).utf8Size = c.utf8Size) (t : Token) :
    (r.token t).stop = t.stop + r.offset := by
  simp only [Token.stop, Token.length, token, byteLength_map h]
  omega

theorem joins_piece (r : Renaming) (p q : Piece) : (r.piece p).joins (r.piece q) = p.joins q := by
  have hconstruct : (q.construct.map (· + r.pushes) == p.construct.map (· + r.pushes)) =
      (q.construct == p.construct) := by
    cases p.construct <;> cases q.construct <;> simp
  simp only [Piece.joins, piece, token, hconstruct, Option.isSome_map]

theorem ofRun_map (r : Renaming) (run : List Piece) :
    Token.ofRun (run.map r.piece) = (Token.ofRun run).map r.token := by
  cases run with
  | nil => rfl
  | cons p run => simp [Token.ofRun, piece, token, List.flatMap_map, List.map_flatMap]

/-- Pieces with other names make up the tokens with other names. -/
theorem coalesce_map (r : Renaming) (pieces : List Piece) :
    Token.coalesce (pieces.map r.piece) = (Token.coalesce pieces).map r.token := by
  have hruns : Token.groups (pieces.map r.piece) =
      (Token.groups pieces).map (List.map r.piece) := by
    rw [Token.groups_eq_splitBy, Token.groups_eq_splitBy]
    exact Token.splitBy_map fun p _ q _ => r.joins_piece p q
  rw [Token.coalesce, hruns, List.filterMap_map, Token.coalesce, List.map_filterMap]
  exact List.filterMap_congr fun run _ => r.ofRun_map run

namespace Fits
variable {r : Renaming} {g : Grammar}

theorem construct? (h : r.Fits g) (s : ModeStack) (t : Transition) :
    g.construct? (r.stack s) (r.transition t) = (g.construct? s t).map (· + r.pushes) := by
  have htop : (if g.encloses (r.stack s).top.mode then some (r.stack s).top.serial else none) =
      (if g.encloses s.top.mode then some s.top.serial else none).map (· + r.pushes) := by
    have hmode : g.encloses (r.stack s).top.mode = g.encloses s.top.mode := h.encloses s.top.mode
    rw [hmode]
    by_cases he : g.encloses s.top.mode = true
    · have hne : s.top.mode ≠ .topLevel := by
        intro ht
        rw [ht, h.topLevel] at he
        cases he
      simp [he, stack, frame, hne]
    · simp [he]
  cases t with
  | push mode =>
      have hserial : s.pushes + r.pushes + 1 = s.pushes + 1 + r.pushes := by ac_rfl
      rw [transition, Grammar.construct?_of_push, Grammar.construct?_of_push, h.encloses, htop,
        stack, hserial]
      split <;> rfl
  | stay | pop | popTo _ | nest | unnest =>
      rw [Grammar.construct?_of_ne_push g s (by nofun)]
      exact (Grammar.construct?_of_ne_push g _ (by nofun)).trans htop

theorem next? (h : r.Fits g) (s : Scanner) :
    (r.scanner s).next? g = (s.next? g).map r.step := by
  by_cases hrest : s.rest = []
  · have hrest' : (r.scanner s).rest = [] := congrArg (List.map r.char) hrest
    rw [Scanner.next?_eq_none.mpr hrest, Scanner.next?_eq_none.mpr hrest', Option.map_none]
  · have hrest' : (r.scanner s).rest ≠ [] := fun he => hrest (List.map_eq_nil_iff.mp he)
    have hmove : g.move (r.scanner s).stack.top.mode (r.scanner s).rest =
        r.move (g.move s.stack.top.mode s.rest) := h.move _ _
    have happly := apply_stack h.injective (h.lowest s.stack.top.mode s.rest hrest) s.stack
    have hconstruct := h.construct? s.stack (g.move s.stack.top.mode s.rest).transition
    rw [Scanner.next?_of_move hrest rfl, Scanner.next?_of_move hrest' hmove]
    simp only [Renaming.move, step, piece, token, scanner, hconstruct, happly, ← List.map_take,
      byteLength_map h.size, List.map_drop, Option.map_some, Nat.add_right_comm]

/-- The steps from a renamed state are the renamed steps. -/
theorem trace (h : r.Fits g) {s : Scanner} {steps : List (Piece × Scanner)}
    (ht : Scanner.Trace g s steps) :
    Scanner.Trace g (r.scanner s) (steps.map r.step) ∧
      (r.scanner s).stateAfter (steps.map r.step) = r.scanner (s.stateAfter steps) := by
  induction ht with
  | done s => exact ⟨.done _, rfl⟩
  | @step s t p steps hn _ ih =>
      have hnext : (r.scanner s).next? g = some (r.piece p, r.scanner t) := by
        rw [h.next?, hn]
        rfl
      rw [List.map_cons, step, Scanner.stateAfter_cons, Scanner.stateAfter_cons]
      exact ⟨.step hnext ih.1, ih.2⟩

end Fits
end Renaming
end LiquidsoapHighlight
