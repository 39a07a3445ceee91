import LiquidsoapHighlight.Liquidsoap.Grammar
import LiquidsoapHighlight.Proofs.Scanner.Origins
import LiquidsoapHighlight.Proofs.Token.Joining
import LiquidsoapHighlight.Proofs.Token.Placed

/-!
The tokens of a text are the longest runs of its pieces that are plain, or that are comment or
annotation pieces of one and the same frame. The frame is meant itself, not its serial number.
-/

namespace LiquidsoapHighlight
namespace Token

open Scanner (Origin)

/-- The pieces of a text, each with the frame that it belongs to. -/
def owned (g : Grammar) (text : List Char) : List (Piece × Option Origin) :=
  (Scanner.pieces g text).mapIdx fun step p => (p, Scanner.owner? g text step)

/-- The second piece goes on with what the first one is part of: plain text, or the comment or
annotation of a frame. -/
def Continues (a b : Piece × Option Origin) : Prop :=
  a.1.token.kind = b.1.token.kind ∧
    (b.1.token.kind = .plain ∨
      (b.1.token.kind = .comment ∨ b.1.token.kind = .pragma) ∧ b.2.isSome ∧ a.2 = b.2)

instance (a b : Piece × Option Origin) : Decidable (Continues a b) :=
  inferInstanceAs (Decidable (_ ∧ _))

/-- The token has the kind of each piece in the run, and reaches from the start of the first to the
end of the last. -/
structure Spans (t : Token) (run : List (Piece × Option Origin)) : Prop where
  kind : ∀ item ∈ run, item.1.token.kind = t.kind
  start : run.head?.map (fun item => item.1.token.start) = some t.start
  stop : run.getLast?.map (fun item => item.1.token.stop) = some t.stop
  text : t.text = run.flatMap fun item => item.1.token.text

variable {g : Grammar} {text : List Char}

theorem map_fst_owned (g : Grammar) (text : List Char) :
    (owned g text).map Prod.fst = Scanner.pieces g text := by
  exact List.ext_getElem (by simp [owned]) (by simp [owned])

theorem step_of_mem_owned {a : Piece × Option Origin} (h : a ∈ owned g text) :
    ∃ step t, (Scanner.steps g text)[step]? = some (a.1, t) ∧
      a.2 = Scanner.owner? g text step := by
  obtain ⟨step, hl, rfl⟩ := List.mem_mapIdx.mp h
  rw [Scanner.pieces, List.length_map] at hl
  refine ⟨step, (Scanner.steps g text)[step].2, ?_, rfl⟩
  simp [Scanner.pieces, List.getElem?_eq_getElem hl]

/-- Whether pieces are joined by their serial numbers or by their frames is the same. -/
theorem joins_eq_continues (h : Text.byteLength text < 2 ^ 32) {a b : Piece × Option Origin}
    (ha : a ∈ owned g text) (hb : b ∈ owned g text) :
    a.1.joins b.1 = decide (Continues a b) := by
  obtain ⟨i, _, hi, hao⟩ := step_of_mem_owned ha
  obtain ⟨j, _, hj, hbo⟩ := step_of_mem_owned hb
  have hsame : a.1.construct = b.1.construct ↔ a.2 = b.2 := by
    rw [hao, hbo]
    exact Scanner.construct_eq_iff h hi hj
  have hsome : b.1.construct.isSome = b.2.isSome := by
    rw [Scanner.construct_eq_owner hj, ← hbo, Option.isSome_map]
  rw [Bool.eq_iff_iff, joins_iff, decide_eq_true_iff, Continues, hsame, hsome]

theorem kind_of_isChain {first : Piece × Option Origin} {run : List (Piece × Option Origin)}
    (h : (first :: run).IsChain Continues) :
    ∀ item ∈ first :: run, item.1.token.kind = first.1.token.kind := by
  induction run generalizing first with
  | nil => simp
  | cons next run ih =>
      obtain ⟨hjoined, hrest⟩ := List.isChain_cons_cons.mp h
      refine List.forall_mem_cons.mpr ⟨rfl, fun item hitem => ?_⟩
      exact (ih hrest item hitem).trans hjoined.1.symm

/-- Each run of pieces that are placed one after another is spanned by its token. -/
theorem spans_ofRun {offset : Nat} {runs : List (List (Piece × Option Origin))} (hne : [] ∉ runs)
    (hchain : ∀ run ∈ runs, run.IsChain Continues)
    (h : Placed offset (runs.flatten.map fun item => item.1.token)) :
    List.Forall₂ Spans ((runs.map (List.map Prod.fst)).filterMap ofRun) runs := by
  induction runs generalizing offset with
  | nil => exact .nil
  | cons run runs ih =>
      obtain ⟨hrun, hruns⟩ := List.forall_mem_cons.mp hchain
      rw [List.flatten_cons, List.map_append, placed_append] at h
      cases run with
      | nil => exact absurd List.mem_cons_self hne
      | cons first run =>
          refine .cons ⟨kind_of_isChain hrun, rfl, ?_, ?_⟩
            (ih (fun hm => hne (List.mem_cons_of_mem _ hm)) hruns h.2)
          · have hstop := h.1.stop_getLast
            obtain ⟨last, hlast⟩ := Option.isSome_iff_exists.mp
              (List.getLast?_isSome.mpr (List.cons_ne_nil first run))
            rw [List.getLast?_map, hlast, Option.map_some, Option.map_some, Option.getD_some,
              texts, List.flatMap_map] at hstop
            rw [hlast, Option.map_some, hstop, stop, length, ← h.1.1, List.flatMap_map]
          · exact List.flatMap_map _ _ _

/-- The tokens of a text shorter than the range of serial numbers are, one for one, the longest
runs of pieces of the same construct. They are also what joining the pieces one by one gives. -/
theorem scan_spans_constructs (g : Grammar) {text : List Char}
    (h : Text.byteLength text < 2 ^ 32) :
    scan g text = joinAll (Scanner.pieces g text) ∧
      List.Forall₂ Spans (scan g text)
        ((owned g text).splitBy fun a b => decide (Continues a b)) := by
  have hruns : groups (Scanner.pieces g text) =
      ((owned g text).splitBy fun a b => decide (Continues a b)).map (List.map Prod.fst) := by
    rw [groups_eq_splitBy, ← map_fst_owned]
    exact splitBy_map fun a ha b hb => joins_eq_continues h ha hb
  obtain ⟨hflat, hnil, hchain, _⟩ := List.splitBy_eq_iff.mp (Eq.refl
    ((owned g text).splitBy fun a b => decide (Continues a b)))
  have hplaced := (Scanner.placed_pieces g text).1
  rw [← map_fst_owned, List.map_map, hflat] at hplaced
  refine ⟨coalesce_eq_joinAll _, ?_⟩
  rw [scan, coalesce, hruns]
  exact spans_ofRun hnil (fun run hrun => (hchain run hrun).imp fun a b => of_decide_eq_true)
    hplaced

/-- A block comment, and a line comment right after it. -/
def touchingComments : List Char := "#<a>##b".toList

/-- The two comments are runs of their own. -/
theorem touchingComments_span :
    ((owned Liquidsoap.grammar touchingComments).splitBy
        fun a b => decide (Continues a b)).map List.length = [3, 2] ∧
      List.Forall₂ Spans (scan Liquidsoap.grammar touchingComments)
        ((owned Liquidsoap.grammar touchingComments).splitBy
          fun a b => decide (Continues a b)) :=
  ⟨by decide +kernel, (scan_spans_constructs Liquidsoap.grammar (by decide)).2⟩

end Token
end LiquidsoapHighlight
