import LiquidsoapHighlight.Liquidsoap.Validity
import LiquidsoapHighlight.Proofs.Grammar.Built
import LiquidsoapHighlight.Proofs.Mode.Stack
import LiquidsoapHighlight.Proofs.Scanner.Trace

/-!
A scan with a built grammar is ruled throughout: it comes only to modes that have rules, and each of
its steps is made by a rule of the mode that it is in.
-/

namespace LiquidsoapHighlight
namespace Scanner
variable {g : Grammar}

/-- All frames of the stack have modes with rules. -/
def Ruled (g : Grammar) (s : Scanner) : Prop :=
  ∀ mode ∈ s.stack.frames.map Frame.mode, (g.rules? mode).isSome

/-- A step is made by a rule: the first of the mode's rules that matches. -/
structure MadeByRule (g : Grammar) (s : Scanner) (rules : List Rule) (rule : Rule) (count : Nat) :
    Prop where
  defined : g.rules? s.stack.top.mode = some rules
  listed : rule ∈ rules
  first : Grammar.firstMatch? rules s.rest = some (rule, count)
  takes : rule.pattern.matchLength? s.rest = some (Text.byteLength (s.rest.take count))
  progress : 0 < Text.byteLength (s.rest.take count)
  step : s.next? g = some
    (⟨⟨rule.kind, s.offset, s.rest.take count⟩, g.construct? s.stack rule.transition⟩,
      ⟨s.offset + Text.byteLength (s.rest.take count), s.rest.drop count,
        s.stack.apply rule.transition⟩)

theorem ruled_start (h : g.Complete) (text : List Char) : Ruled g (start text) := by
  intro mode hmode
  obtain rfl := List.mem_singleton.mp hmode
  exact h.topLevel

theorem Ruled.exists_rule (h : g.Complete) {s : Scanner} (hs : Ruled g s) (hne : s.rest ≠ []) :
    ∃ rules rule count, MadeByRule g s rules rule count := by
  obtain ⟨rules, hrules⟩ := Option.isSome_iff_exists.mp (hs s.stack.top.mode List.mem_cons_self)
  obtain ⟨rule, count, hfirst⟩ :=
    Grammar.exists_firstMatch?_of_catchAll (h.catchAll _ rules hrules) hne
  obtain ⟨hmem, hmatch⟩ := Grammar.matchCount?_of_firstMatch? hfirst
  have hle := Pattern.matchCount?_le_length hmatch
  have htaken : s.rest.take count ≠ [] := by
    rw [← List.length_pos_iff, List.length_take_of_le hle]
    exact Pattern.matchCount?_pos hmatch
  refine ⟨rules, rule, count, hrules, hmem, hfirst, ?_, Text.byteLength_pos htaken, ?_⟩
  · rw [Pattern.matchLength?, hmatch, Option.map_some]
  · exact next?_of_move hne (Grammar.move_eq hrules hfirst)

/-- A step comes to no other modes than those that its rule may lead to. -/
theorem Ruled.next (h : g.Complete) {s t : Scanner} {p : Piece} (hs : Ruled g s)
    (hn : s.next? g = some (p, t)) : Ruled g t := by
  obtain ⟨hne, _⟩ := move_of_next? hn
  obtain ⟨rules, rule, count, hrule⟩ := hs.exists_rule h hne
  rw [hrule.step] at hn
  obtain ⟨_, rfl⟩ := Prod.mk.inj (Option.some.inj hn)
  intro mode hmode
  obtain hold | hpush := ModeStack.modes_apply_subset rule.transition s.stack hmode
  · exact hs mode hold
  · exact h.targets _ rules hrule.defined rule hrule.listed mode (by rw [hpush]; rfl)

theorem ruled_after (h : g.Complete) (text : List Char) (count : Nat) :
    Ruled g (after g text count) :=
  after_preserves text (ruled_start h text) (fun hs hn => Ruled.next h hs hn) count

/-- A grammar that has been built scans every text by its rules alone: at each point all frames have
modes with rules, and as long as the text goes on the next step is made by a rule. -/
theorem built_scans_by_rules {definitions : List ModeDefinition}
    (h : Grammar.build definitions = .ok g) (text : List Char) (count : Nat) :
    (∀ frame ∈ (after g text count).stack.frames, (g.rules? frame.mode).isSome) ∧
      ((after g text count).rest ≠ [] →
        ∃ rules rule taken, MadeByRule g (after g text count) rules rule taken) := by
  have hruled := ruled_after (Grammar.complete_of_build h) text count
  refine ⟨fun frame hframe => hruled _ (List.mem_map_of_mem hframe), fun hne => ?_⟩
  exact hruled.exists_rule (Grammar.complete_of_build h) hne

/-- A hole that is left open, with a character in it that no rule but the last one takes. -/
def characterInHole : List Char := "\"#\x7bé".toList

/-- The character is taken by a rule of the hole, under which there is a string. -/
theorem characterInHole_by_rules :
    Grammar.build Liquidsoap.definitions = .ok Liquidsoap.grammar ∧
      (after Liquidsoap.grammar characterInHole 2).rest = ['é'] ∧
      (after Liquidsoap.grammar characterInHole 2).stack.size = 3 ∧
      (∀ frame ∈ (after Liquidsoap.grammar characterInHole 2).stack.frames,
        (Liquidsoap.grammar.rules? frame.mode).isSome) ∧
      ∃ rules rule taken,
        MadeByRule Liquidsoap.grammar (after Liquidsoap.grammar characterInHole 2) rules rule
          taken := by
  have hrest : (after Liquidsoap.grammar characterInHole 2).rest = ['é'] := by decide +kernel
  have hscan := built_scans_by_rules Liquidsoap.build_definitions characterInHole 2
  exact ⟨Liquidsoap.build_definitions, hrest, by decide +kernel, hscan.1,
    hscan.2 (by rw [hrest]; exact List.cons_ne_nil _ _)⟩

end Scanner
end LiquidsoapHighlight
