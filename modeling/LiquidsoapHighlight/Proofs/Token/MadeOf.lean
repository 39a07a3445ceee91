import LiquidsoapHighlight.Proofs.Scanner.Trace
import LiquidsoapHighlight.Proofs.Token.Runs

/-!
The steps that a token is made of. Each token has its own, and they follow one another in the scan.
-/

namespace LiquidsoapHighlight
namespace Token
variable {g : Grammar} {text : List Char} {t : Token}

def ofSteps (steps : List (Piece × Scanner)) : Option Token :=
  ofRun (steps.map Prod.fst)

/-- The token is made of some steps of a scan, which come after the first ones. -/
def MadeOf (g : Grammar) (text : List Char) (t : Token) (first run : List (Piece × Scanner)) :
    Prop :=
  (∃ back, Scanner.steps g text = first ++ (run ++ back)) ∧ ofSteps run = some t

theorem exists_of_ofSteps {run : List (Piece × Scanner)} (h : ofSteps run = some t) :
    ∃ step rest, run = step :: rest ∧ t.kind = step.1.token.kind ∧
      t.start = step.1.token.start ∧ t.text = Scanner.taken run := by
  cases run with
  | nil => cases h
  | cons step rest =>
      obtain rfl := Option.some.inj h
      refine ⟨step, rest, rfl, rfl, rfl, ?_⟩
      exact List.flatMap_map _ _ _

namespace MadeOf
variable {first run first' run' : List (Piece × Scanner)}

theorem text_eq (h : MadeOf g text t first run) : t.text = Scanner.taken run := by
  obtain ⟨_, _, _, _, _, ht⟩ := exists_of_ofSteps h.2
  exact ht

theorem trace (h : MadeOf g text t first run) :
    Scanner.Trace g (.start text) first ∧
      Scanner.Trace g ((Scanner.start text).stateAfter first) run := by
  obtain ⟨⟨back, hsteps⟩, _⟩ := h
  have ht := Scanner.trace_steps g text
  rw [hsteps] at ht
  obtain ⟨hfirst, hrest⟩ := Scanner.trace_append.mp ht
  exact ⟨hfirst, (Scanner.trace_append.mp hrest).1⟩

theorem start_eq (h : MadeOf g text t first run) :
    t.start = Text.byteLength (Scanner.taken first) := by
  obtain ⟨hfirst, hrun⟩ := h.trace
  obtain ⟨⟨p, s⟩, rest, rfl, _, hstart, _⟩ := exists_of_ofSteps h.2
  have hoffset := hfirst.offset_eq
  cases hrun with
  | step hn _ =>
      rw [hstart, (Scanner.next?_takes hn).2.2.1, hoffset]
      exact Nat.zero_add _

theorem unique (h : MadeOf g text t first run) (h' : MadeOf g text t first' run') :
    first = first' ∧ run = run' := by
  have hfirst : Text.byteLength (Scanner.taken first) =
      Text.byteLength (Scanner.taken first') := h.start_eq.symm.trans h'.start_eq
  have hrun : Scanner.taken run = Scanner.taken run' := h.text_eq.symm.trans h'.text_eq
  obtain ⟨⟨back, hsteps⟩, _⟩ := h
  obtain ⟨⟨back', hsteps'⟩, _⟩ := h'
  have ht := Scanner.trace_steps g text
  have hsame := hsteps.symm.trans hsteps'
  rw [hsteps] at ht
  obtain rfl := ht.eq_of_byteLength hsame hfirst
  refine ⟨rfl, ?_⟩
  have htail := (Scanner.trace_append.mp ht).2
  exact htail.eq_of_byteLength (List.append_cancel_left hsame) (congrArg _ hrun)

end MadeOf

/-- Each token is made of steps to which no step before or after them belongs. -/
theorem exists_madeOf (h : t ∈ scan g text) :
    ∃ first run back, Scanner.steps g text = first ++ (run ++ back) ∧
      MadeOf g text t first run ∧
      IsMaximalRun (first.map Prod.fst) (run.map Prod.fst) (back.map Prod.fst) := by
  obtain ⟨pieces, hmem, ht⟩ := List.mem_filterMap.mp h
  obtain ⟨front, last, happ, hmax⟩ := exists_maximalRun hmem
  rw [Scanner.pieces, List.append_assoc, List.map_eq_append_iff] at happ
  obtain ⟨first, rest, hsteps, rfl, hrest⟩ := happ
  obtain ⟨run, back, rfl, rfl, rfl⟩ := List.map_eq_append_iff.mp hrest
  exact ⟨first, run, back, hsteps, ⟨⟨back, hsteps⟩, ht⟩, hmax⟩

theorem not_joins_of_not_coalesces {p : Piece} (h : p.token.kind.coalesces = false) (q : Piece) :
    p.joins q = false := by
  rw [← Bool.not_eq_true, Piece.joins]
  simp only [Bool.and_eq_true, beq_iff_eq]
  rintro ⟨⟨hsame, hq⟩, _⟩
  rw [← hsame, h] at hq
  cases hq

/-- A piece that no other one joins is all of its run. -/
theorem IsMaximalRun.eq_nil {front back : List Piece} {step : Piece × Scanner}
    {rest : List (Piece × Scanner)}
    (h : IsMaximalRun front ((step :: rest).map Prod.fst) back)
    (hp : ∀ q, step.1.joins q = false) : rest = [] := by
  cases rest with
  | nil => rfl
  | cons q rest =>
      have hjoins := (List.isChain_cons_cons.mp h.joined).1
      rw [hp] at hjoins
      cases hjoins

theorem MadeOf.after_length {first run : List (Piece × Scanner)} (h : MadeOf g text t first run) :
    Scanner.after g text first.length = (Scanner.start text).stateAfter first := by
  obtain ⟨⟨back, hsteps⟩, _⟩ := h
  rw [Scanner.after, hsteps, List.take_left]

/-- A token of a kind that is never joined is the piece of one step. -/
theorem exists_step_of_mem_scan (h : t ∈ scan g text) (hk : t.kind.coalesces = false) :
    ∃ count p s, (Scanner.after g text count).next? g = some (p, s) ∧ p.token = t := by
  obtain ⟨first, run, back, hsteps, hmade, hmax⟩ := exists_madeOf h
  obtain ⟨⟨p, s⟩, rest, rfl, hkind, hstart, htext⟩ := exists_of_ofSteps hmade.2
  rw [hkind] at hk
  obtain rfl := hmax.eq_nil (not_joins_of_not_coalesces hk)
  cases hmade.trace.2 with
  | step hn _ =>
      refine ⟨first.length, p, s, ?_, ?_⟩
      · rw [hmade.after_length]
        exact hn
      · have hsingle : ofSteps [(p, s)] = some p.token := by simp [ofSteps, ofRun]
        exact Option.some.inj (hsingle.symm.trans hmade.2)

end Token
end LiquidsoapHighlight
