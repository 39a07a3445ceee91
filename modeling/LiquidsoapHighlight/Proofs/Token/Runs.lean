import Mathlib.Data.List.SplitBy
import LiquidsoapHighlight.Scanner.Coalesce

/-!
The runs into which pieces are split: the pieces in order, split exactly where a piece does not join
the one before it.
-/

namespace LiquidsoapHighlight
namespace Token

theorem groups_cons (p : Piece) {q : Piece} {rest run : List Piece} {runs : List (List Piece)}
    (h : groups (q :: rest) = run :: runs) :
    groups (p :: q :: rest) =
      if p.joins q then (p :: run) :: runs else [p] :: run :: runs :=
  groups.eq_2 p q rest run runs h

theorem groups_eq_splitBy (pieces : List Piece) :
    groups pieces = pieces.splitBy Piece.joins := by
  induction pieces with
  | nil => rfl
  | cons p rest ih =>
      cases rest with
      | nil => rfl
      | cons q rest =>
          cases hs : (q :: rest).splitBy Piece.joins with
          | nil => exact absurd hs (List.splitBy_ne_nil.mpr (List.cons_ne_nil q rest))
          | cons run runs =>
              rw [hs] at ih
              obtain ⟨hflat, hnil, hchain, hends⟩ := List.splitBy_eq_iff.mp hs
              obtain ⟨q', run, rfl⟩ := List.exists_cons_of_ne_nil
                (fun he : run = [] => hnil (he ▸ List.mem_cons_self))
              obtain rfl : q = q' := (List.cons.inj hflat).1
              rw [groups_cons p ih]
              cases hj : p.joins q with
              | false =>
                  have happ := List.splitBy_append_cons (r := Piece.joins) (l := [p]) (a := q)
                    rest (by simpa using hj)
                  rw [List.singleton_append] at happ
                  rw [happ, hs]
                  rfl
              | true =>
                  symm
                  rw [if_pos rfl, List.splitBy_eq_iff]
                  refine ⟨by rw [hflat]; rfl, ?_, ?_, ?_⟩
                  · simp only [List.mem_cons, not_or] at hnil ⊢
                    exact ⟨List.cons_ne_nil _ _ |>.symm, hnil.2⟩
                  · intro m hm
                    rcases List.mem_cons.mp hm with rfl | hm
                    · exact List.isChain_cons_cons.mpr ⟨hj, hchain _ List.mem_cons_self⟩
                    · exact hchain m (List.mem_cons_of_mem _ hm)
                  · rw [List.isChain_cons] at hends ⊢
                    refine ⟨?_, hends.2⟩
                    intro m hm
                    obtain ⟨_, hb, hlast⟩ := hends.1 m hm
                    exact ⟨List.cons_ne_nil _ _, hb, by rwa [List.getLast_cons_cons]⟩

/-- Members that are related as their images are split as these. -/
theorem splitBy_map {α β : Type} {f : α → β} {r : α → α → Bool} {r' : β → β → Bool} {l : List α}
    (h : ∀ a ∈ l, ∀ b ∈ l, r' (f a) (f b) = r a b) :
    (l.map f).splitBy r' = (l.splitBy r).map (List.map f) := by
  have hmem : ∀ run ∈ l.splitBy r, ∀ a ∈ run, a ∈ l := by
    intro run hrun a ha
    rw [← List.flatten_splitBy r l]
    exact List.mem_flatten_of_mem hrun ha
  obtain ⟨_, hnil, hchain, hends⟩ := List.splitBy_eq_iff.mp (Eq.refl (l.splitBy r))
  refine List.splitBy_eq_iff.mpr ⟨?_, ?_, ?_, ?_⟩
  · rw [← List.map_flatten, List.flatten_splitBy]
  · simp [hnil]
  · intro run' hrun'
    obtain ⟨run, hrun, rfl⟩ := List.mem_map.mp hrun'
    rw [List.isChain_map]
    refine (hchain run hrun).imp_of_mem_imp fun a b ha hb hr => ?_
    rw [h a (hmem run hrun a ha) b (hmem run hrun b hb)]
    exact hr
  · rw [List.isChain_map]
    refine hends.imp_of_mem_imp fun run next hrun hnext hr => ?_
    obtain ⟨hne, hne', hr⟩ := hr
    refine ⟨by simpa using hne, by simpa using hne', ?_⟩
    rw [List.getLast_map, List.head_map,
      h _ (hmem run hrun _ (List.getLast_mem hne)) _ (hmem next hnext _ (List.head_mem hne'))]
    exact hr

/-- A run of pieces that the piece before and the piece after do not belong to. -/
structure IsMaximalRun (front run back : List Piece) : Prop where
  nonempty : run ≠ []
  joined : run.IsChain fun p q => p.joins q = true
  starts : ∀ p ∈ front.getLast?, ∀ q ∈ run.head?, p.joins q = false
  stops : ∀ p ∈ run.getLast?, ∀ q ∈ back.head?, p.joins q = false

theorem exists_maximalRun {pieces run : List Piece} (h : run ∈ groups pieces) :
    ∃ front back, pieces = front ++ run ++ back ∧ IsMaximalRun front run back := by
  rw [groups_eq_splitBy] at h
  obtain ⟨first, rest, hs⟩ := List.append_of_mem h
  obtain ⟨hflat, hnil, hchain, hends⟩ := List.splitBy_eq_iff.mp hs
  obtain ⟨_, hright, hleft⟩ := List.isChain_append.mp hends
  refine ⟨first.flatten, rest.flatten, by simp [hflat], ?_, hchain run (by simp), ?_, ?_⟩
  · exact List.ne_nil_of_mem_splitBy h
  · intro p hp q hq
    rcases List.eq_nil_or_concat' first with rfl | ⟨init, last, rfl⟩
    · simp at hp
    · obtain ⟨ha, hb, hj⟩ := hleft last (by simp) run (by simp)
      rw [List.flatten_concat, List.getLast?_append, List.getLast?_eq_some_getLast ha,
        Option.some_or] at hp
      rw [List.head?_eq_some_head hb] at hq
      obtain rfl := Option.some.inj hp
      obtain rfl := Option.some.inj hq
      exact hj
  · intro p hp q hq
    cases rest with
    | nil => simp at hq
    | cons next rest =>
        obtain ⟨ha, hb, hj⟩ := (List.isChain_cons_cons.mp hright).1
        rw [List.flatten_cons, List.head?_append, List.head?_eq_some_head hb,
          Option.some_or] at hq
        rw [List.getLast?_eq_some_getLast ha] at hp
        obtain rfl := Option.some.inj hp
        obtain rfl := Option.some.inj hq
        exact hj

end Token
end LiquidsoapHighlight
