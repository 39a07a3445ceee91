import Mathlib.Algebra.GroupWithZero.Nat
import Mathlib.Data.List.TakeWhile
import LiquidsoapHighlight.Proofs.Liquidsoap.StackShape
import LiquidsoapHighlight.Proofs.Regex.Repetition

/-!
Block comments and annotation blocks, which nest in themselves. Such a construct ends where counting
its signs says, and it is one token, apart from what stands before and after it.
-/

namespace LiquidsoapHighlight
namespace Liquidsoap

inductive Bracketed where
  | comment
  | annotation
  deriving DecidableEq

namespace Bracketed

def mode : Bracketed → Mode
  | comment => .blockComment
  | annotation => .annotationBlock

def kind : Bracketed → TokenKind
  | comment => .comment
  | annotation => .pragma

/-- The sign that opens the construct. -/
def opener : Bracketed → List Char
  | comment => blockCommentOpen
  | annotation => argsofOpen

/-- The sign that leads one level deeper. -/
def deeper : Bracketed → List Char
  | comment => blockCommentOpen
  | annotation => ['(']

def close : Bracketed → List Char
  | comment => blockCommentClose
  | annotation => [')']

/-- The number of characters up to the end of the sign that closes the construct. The text is read
character by character with a counter of levels; the number that comes first is that of characters
which are left of a sign. -/
def close? {α : Type} [OfNat α 0] [OfNat α 1] [Add α] [Sub α] [DecidableEq α] (b : Bracketed) :
    Nat → α → List Char → Option Nat
  | _, _, [] => none
  | left + 1, level, _ :: rest => (b.close? left level rest).map (· + 1)
  | 0, level, c :: rest =>
    if b.deeper.isPrefixOf (c :: rest) then
      (b.close? (b.deeper.length - 1) (level + 1) rest).map (· + 1)
    else if b.close.isPrefixOf (c :: rest) then
      if level = 0 then some b.close.length
      else (b.close? (b.close.length - 1) (level - 1) rest).map (· + 1)
    else (b.close? 0 level rest).map (· + 1)

theorem deeper_ne_nil (b : Bracketed) : b.deeper ≠ [] := by
  cases b <;> exact List.cons_ne_nil _ _

theorem close_ne_nil (b : Bracketed) : b.close ≠ [] := by
  cases b <;> exact List.cons_ne_nil _ _

section
variable {α : Type} [OfNat α 0] [OfNat α 1] [Add α] [Sub α] [DecidableEq α]

theorem close?_deeper (b : Bracketed) (level : α) (rest : List Char) :
    b.close? 0 level (b.deeper ++ rest) =
      (b.close? 0 (level + 1) rest).map (· + b.deeper.length) := by
  cases b with
  | comment => exact Option.map_map _ _ _
  | annotation => rfl

theorem close?_last (b : Bracketed) (rest : List Char) :
    b.close? 0 (0 : α) (b.close ++ rest) = some b.close.length := by
  cases b with
  | comment | annotation => exact if_pos rfl

theorem close?_close (b : Bracketed) {level : α} (h : level ≠ 0) (rest : List Char) :
    b.close? 0 level (b.close ++ rest) =
      (b.close? 0 (level - 1) rest).map (· + b.close.length) := by
  cases b with
  | comment => exact (if_neg h).trans (Option.map_map _ _ _)
  | annotation => exact if_neg h

/-- No sign of the construct starts at the text. -/
def NoSign (b : Bracketed) (text : List Char) : Prop :=
  ¬ b.deeper <+: text ∧ ¬ b.close <+: text

theorem close?_drop (b : Bracketed) (level : α) {text : List Char} {count : Nat}
    (hl : count ≤ text.length) (h : ∀ i < count, b.NoSign (text.drop i)) :
    b.close? 0 level text = (b.close? 0 level (text.drop count)).map (· + count) := by
  induction count generalizing text with
  | zero => simp
  | succ count ih =>
      cases text with
      | nil => cases hl
      | cons c rest =>
          obtain ⟨hdeeper, hclose⟩ := h 0 (Nat.succ_pos count)
          rw [List.drop_zero, ← List.isPrefixOf_iff_prefix, Bool.not_eq_true] at hdeeper hclose
          have hrest := ih (Nat.le_of_succ_le_succ hl)
            fun i hi => h (i + 1) (Nat.succ_lt_succ hi)
          rw [close?, hdeeper, hclose, if_neg Bool.false_ne_true, if_neg Bool.false_ne_true, hrest,
            Option.map_map]
          rfl

/-- Signs that lead deeper, one right after another, count up. -/
theorem close?_nested (b : Bracketed) (levels : Nat → α)
    (up : ∀ n, levels (n + 1) = levels n + 1) (start count : Nat) (rest : List Char) :
    b.close? 0 (levels start) ((List.replicate count b.deeper).flatten ++ rest) =
      (b.close? 0 (levels (start + count)) rest).map (· + count * b.deeper.length) := by
  induction count generalizing start with
  | zero => simp
  | succ count ih =>
      rw [List.replicate_succ, List.flatten_cons, List.append_assoc, close?_deeper, ← up, ih,
        Option.map_map, Nat.add_right_comm, Nat.add_assoc]
      congr 1
      funext n
      simp only [Function.comp_apply, Nat.succ_mul, Nat.add_assoc]

end

/-- In a text with fewer signs than there are depths, the counter may as well have no limit. -/
theorem close?_toNat (b : Bracketed) (left : Nat) (level : UInt32) {text : List Char}
    (h : level.toNat + text.length < 2 ^ 32) :
    b.close? left level text = b.close? left level.toNat text := by
  induction text generalizing left level with
  | nil => rfl
  | cons c rest ih =>
      rw [List.length_cons] at h
      cases left with
      | succ left => rw [close?, close?, ih left level (by omega)]
      | zero =>
          have hzero : level = 0 ↔ level.toNat = 0 := by
            rw [← UInt32.toNat_inj]
            rfl
          have hup : (level + 1).toNat = level.toNat + 1 := ModeStack.toNat_add_one (by omega)
          rw [close?, close?, ih _ (level + 1) (by omega), hup, ih 0 level (by omega)]
          by_cases hlevel : level = 0
          · simp only [hlevel, if_true]
            rfl
          · have hdown := ModeStack.toNat_sub_one hlevel
            have hnat : ¬ level.toNat = 0 := fun hn => hlevel (hzero.mpr hn)
            rw [ih _ (level - 1) (by omega), hdown, if_neg hlevel, if_neg hnat]

/-- What the construct holds besides its signs. -/
def body : Bracketed → WrittenRegex
  | comment => blockCommentText
  | annotation => annotationText

def bodyClass : Bracketed → CharClass
  | comment => (CharClass.ofRanges [('#', '#'), ('>', '>')]).complement
  | annotation => (CharClass.ofRanges [('(', ')')]).complement

theorem rules_mode (b : Bracketed) : rules b.mode = [
    ⟨"nested-open", .literal b.deeper, b.kind, .nest⟩,
    ⟨"close", .literal b.close, b.kind, .unnest⟩,
    ⟨"text", .expression b.body false, b.kind, .stay⟩,
    ⟨"other", .anyChar, b.kind, .stay⟩] := by
  cases b <;> rfl

theorem move_deeper (b : Bracketed) (rest : List Char) :
    grammar.move b.mode (b.deeper ++ rest) = ⟨b.kind, b.deeper.length, .nest⟩ := by
  cases b <;> rfl

theorem move_close (b : Bracketed) (rest : List Char) :
    grammar.move b.mode (b.close ++ rest) = ⟨b.kind, b.close.length, .unnest⟩ := by
  cases b <;> rfl

theorem noSign_of_bodyClass (b : Bracketed) {c : Char} (h : b.bodyClass.contains c = true)
    (rest : List Char) : b.NoSign (c :: rest) := by
  cases b with
  | comment | annotation =>
      constructor
      · intro hp
        obtain rfl := (List.cons_prefix_cons.mp hp).1
        exact absurd h (by decide)
      · intro hp
        obtain rfl := (List.cons_prefix_cons.mp hp).1
        exact absurd h (by decide)

/-- Where no sign starts, a step takes characters at none of which one starts. -/
theorem move_other (b : Bracketed) {text : List Char} (hne : text ≠ []) (h : b.NoSign text) :
    ∃ count, grammar.move b.mode text = ⟨b.kind, count, .stay⟩ ∧
      ∀ i < count, b.NoSign (text.drop i) := by
  have hliteral : ∀ lit : List Char, ¬ lit <+: text →
      (Pattern.literal lit).matchCount? text = none := by
    intro lit hp
    rw [← List.isPrefixOf_iff_prefix] at hp
    simp [Pattern.matchCount?, Pattern.candidate?, hp]
  have hbody : (Pattern.expression b.body false).matchCount? text =
      if text.takeWhile b.bodyClass.contains = [] then none
      else some (text.takeWhile b.bodyClass.contains).length := by
    cases b <;> exact Pattern.matchCount?_run rfl text
  have hrules : Grammar.firstMatch? (rules b.mode) text =
      Grammar.firstMatch? [⟨"text", .expression b.body false, b.kind, .stay⟩,
        ⟨"other", .anyChar, b.kind, .stay⟩] text := by
    rw [rules_mode, Grammar.firstMatch?_cons_none _ (hliteral _ h.1),
      Grammar.firstMatch?_cons_none _ (hliteral _ h.2)]
  by_cases hempty : text.takeWhile b.bodyClass.contains = []
  · have hone : Pattern.anyChar.matchCount? text = some 1 := by
      cases text with
      | nil => exact absurd rfl hne
      | cons c rest => rfl
    rw [if_pos hempty] at hbody
    rw [Grammar.firstMatch?_cons_none _ hbody, Grammar.firstMatch?_cons_some _ hone] at hrules
    refine ⟨1, move_of_firstMatch hrules, fun i hi => ?_⟩
    obtain rfl := Nat.lt_one_iff.mp hi
    exact h
  · rw [if_neg hempty] at hbody
    rw [Grammar.firstMatch?_cons_some _ hbody] at hrules
    refine ⟨_, move_of_firstMatch hrules, fun i hi => ?_⟩
    have hl := Nat.lt_of_lt_of_le hi (List.takeWhile_prefix b.bodyClass.contains).length_le
    have hc := List.mem_takeWhile_imp (List.getElem_mem hi)
    rw [(List.takeWhile_prefix b.bodyClass.contains).getElem hi] at hc
    rw [List.drop_eq_getElem_cons hl]
    exact b.noSign_of_bodyClass hc _

/-- The stack in a construct that was opened on a stack. -/
def inside (b : Bracketed) (s : ModeStack) (level : UInt32) : ModeStack :=
  ⟨⟨b.mode, level, s.pushes + 1⟩, s.frames, s.pushes + 1⟩

theorem unnest_inside (b : Bracketed) (s : ModeStack) {level : UInt32} (h : level ≠ 0) :
    (b.inside s level).unnest = b.inside s (level - 1) :=
  if_neg h

theorem unnest_inside_zero (b : Bracketed) (s : ModeStack) :
    (b.inside s 0).unnest = { s with pushes := s.pushes + 1 } :=
  rfl

theorem construct?_inside (b : Bracketed) (s : ModeStack) (level : UInt32) {t : Transition}
    (h : ∀ mode, t ≠ .push mode) :
    grammar.construct? (b.inside s level) t = some (s.pushes + 1) := by
  rw [Grammar.construct?_of_ne_push _ _ h]
  cases b <;> rfl

/-- Of the steps from a state in the construct on, the first ones are those that the construct
takes, and the others come after it. -/
structure Extends (b : Bracketed) (s : ModeStack) (level : UInt32) (u : Scanner)
    (inner back : List (Piece × Scanner)) : Prop where
  pieces : ∀ step ∈ inner, step.1.token.kind = b.kind ∧ step.1.construct = some (s.pushes + 1)
  taken : Scanner.taken inner = u.rest.take ((b.close? 0 level u.rest).getD u.rest.length)
  closed : ∀ n, b.close? 0 level u.rest = some n →
    (u.stateAfter inner).stack = { s with pushes := s.pushes + 1 }
  unclosed : b.close? 0 level u.rest = none → back = []

namespace Extends
variable {b : Bracketed} {s : ModeStack} {level after : UInt32} {u v : Scanner} {p : Piece}
  {inner back : List (Piece × Scanner)}

/-- A step after which the construct is still open. -/
theorem cons (h : Extends b s after v inner back) (hk : p.token.kind = b.kind)
    (hc : p.construct = some (s.pushes + 1)) (hr : u.rest = p.token.text ++ v.rest)
    (hclose : b.close? 0 level u.rest =
      (b.close? 0 after v.rest).map (· + p.token.text.length)) :
    Extends b s level u ((p, v) :: inner) back := by
  refine ⟨List.forall_mem_cons.mpr ⟨⟨hk, hc⟩, h.pieces⟩, ?_, ?_, ?_⟩
  · have hsum : (b.close? 0 level u.rest).getD u.rest.length =
        p.token.text.length + (b.close? 0 after v.rest).getD v.rest.length := by
      rw [hclose, hr, List.length_append]
      cases b.close? 0 after v.rest with
      | none => rfl
      | some n => exact Nat.add_comm _ _
    rw [hsum, hr, List.take_length_add_append, ← h.taken]
    rfl
  · intro n hn
    rw [hclose] at hn
    obtain ⟨m, hm, _⟩ := Option.map_eq_some_iff.mp hn
    rw [Scanner.stateAfter_cons]
    exact h.closed m hm
  · intro hn
    rw [hclose] at hn
    exact h.unclosed (Option.map_eq_none_iff.mp hn)

/-- The step that closes the construct. -/
theorem last (hk : p.token.kind = b.kind) (hc : p.construct = some (s.pushes + 1))
    (ht : p.token.text = b.close) (hr : u.rest = b.close ++ v.rest)
    (hs : v.stack = { s with pushes := s.pushes + 1 }) :
    Extends b s 0 u [(p, v)] back := by
  have hclose := b.close?_last (α := UInt32) v.rest
  rw [← hr] at hclose
  refine ⟨List.forall_mem_cons.mpr ⟨⟨hk, hc⟩, by simp⟩, ?_, fun _ _ => hs, fun hn => ?_⟩
  · rw [hclose, Option.getD_some, hr, List.take_left]
    exact (List.append_nil _).trans ht
  · rw [hclose] at hn
    cases hn

end Extends

/-- A step in the construct, by its move. -/
theorem next_inside {b : Bracketed} {s : ModeStack} {level : UInt32} {u v : Scanner} {p : Piece}
    {taken rest : List Char} {t : Transition} (hu : u.stack = b.inside s level)
    (hn : u.next? grammar = some (p, v)) (hr : u.rest = taken ++ rest) (hne : taken ≠ [])
    (hm : grammar.move b.mode u.rest = ⟨b.kind, taken.length, t⟩) (ht : ∀ mode, t ≠ .push mode) :
    p = ⟨⟨b.kind, u.offset, taken⟩, some (s.pushes + 1)⟩ ∧
      v = ⟨u.offset + Text.byteLength taken, rest, (b.inside s level).apply t⟩ := by
  have hmode : u.stack.top.mode = b.mode := by rw [hu]; rfl
  have hstep := Scanner.next?_eq_some hr hne (hmode ▸ hm)
  rw [hn, hu, b.construct?_inside s level ht] at hstep
  exact Prod.mk.inj (Option.some.inj hstep)

/-- From a state in the construct on, the steps go to where counting the signs ends, or all the way
to the end of the text. -/
theorem exists_extends {b : Bracketed} {s : ModeStack} {level : UInt32} {u : Scanner}
    {steps : List (Piece × Scanner)} (hu : u.stack = b.inside s level)
    (h : Scanner.Trace grammar u steps) (hend : (u.stateAfter steps).rest = []) :
    ∃ inner back, steps = inner ++ back ∧ Extends b s level u inner back := by
  induction h generalizing level with
  | done u =>
      rw [Scanner.stateAfter_nil] at hend
      refine ⟨[], [], rfl, by simp, ?_, ?_, fun _ => rfl⟩
      · rw [hend, List.take_nil]
        rfl
      · intro n hn
        rw [hend] at hn
        cases hn
  | @step u v p steps hn ht ih =>
      rw [Scanner.stateAfter_cons] at hend
      have hne : u.rest ≠ [] := (Scanner.move_of_next? hn).1
      by_cases hdeeper : b.deeper <+: u.rest
      · obtain ⟨rest, hr⟩ := hdeeper
        have hm := b.move_deeper rest
        rw [hr] at hm
        obtain ⟨rfl, rfl⟩ := next_inside hu hn hr.symm b.deeper_ne_nil hm nofun
        obtain ⟨inner, back, rfl, hinner⟩ := @ih (level + 1) rfl hend
        exact ⟨_ :: inner, back, rfl, hinner.cons rfl rfl hr.symm
          (hr ▸ b.close?_deeper level rest)⟩
      by_cases hclose : b.close <+: u.rest
      · obtain ⟨rest, hr⟩ := hclose
        have hm := b.move_close rest
        rw [hr] at hm
        obtain ⟨rfl, rfl⟩ := next_inside hu hn hr.symm b.close_ne_nil hm nofun
        by_cases hlevel : level = 0
        · subst hlevel
          exact ⟨[_], steps, rfl, .last rfl rfl rfl hr.symm (b.unnest_inside_zero s)⟩
        · obtain ⟨inner, back, rfl, hinner⟩ := ih (b.unnest_inside s hlevel) hend
          exact ⟨_ :: inner, back, rfl, hinner.cons rfl rfl hr.symm
            (hr ▸ b.close?_close hlevel rest)⟩
      · obtain ⟨count, hm, hnone⟩ := b.move_other hne ⟨hdeeper, hclose⟩
        obtain ⟨hpos, hle⟩ := grammar.move_count_bounds b.mode hne
        rw [hm] at hpos hle
        have hlength : (u.rest.take count).length = count := List.length_take_of_le hle
        have htaken : u.rest.take count ≠ [] := by
          apply List.ne_nil_of_length_pos
          rwa [hlength]
        rw [← hlength] at hm
        obtain ⟨rfl, rfl⟩ := next_inside hu hn (List.take_append_drop count _).symm htaken hm nofun
        obtain ⟨inner, back, rfl, hinner⟩ := @ih level rfl hend
        refine ⟨_ :: inner, back, rfl, hinner.cons rfl rfl (List.take_append_drop count _).symm ?_⟩
        rw [hlength]
        exact b.close?_drop level hle hnone

end Bracketed

end Liquidsoap
end LiquidsoapHighlight
