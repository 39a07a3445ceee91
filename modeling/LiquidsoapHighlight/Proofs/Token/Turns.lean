import LiquidsoapHighlight.Proofs.Token.Seam

/-!
The tokens of one construct. Neighbours among its comments and annotations are of different kinds,
so these take turns.
-/

namespace LiquidsoapHighlight
namespace Token

/-- Comment and annotation pieces of one construct. -/
def OfConstruct (serial : UInt32) (pieces : List Piece) : Prop :=
  ∀ p ∈ pieces, (p.token.kind = .comment ∨ p.token.kind = .pragma) ∧ p.construct = some serial

/-- A token is made of pieces of its own kind. -/
theorem exists_run_of_mem_coalesce {pieces : List Piece} {t : Token} (h : t ∈ coalesce pieces) :
    ∃ run, run ≠ [] ∧ (∀ p ∈ run, p ∈ pieces ∧ p.token.kind = t.kind) ∧
      t.text = run.flatMap fun p => p.token.text := by
  obtain ⟨run, hrun, ht⟩ := List.mem_filterMap.mp h
  obtain ⟨front, back, rfl, hmax⟩ := exists_maximalRun hrun
  obtain ⟨first, run, rfl⟩ := List.exists_cons_of_ne_nil hmax.nonempty
  obtain rfl := Option.some.inj ht
  have hkinds := kind_of_isChain_joins hmax.joined
  refine ⟨first :: run, List.cons_ne_nil _ _, fun p hp => ⟨?_, hkinds p hp⟩, rfl⟩
  exact List.mem_append_left _ (List.mem_append_right _ hp)

/-- In one construct, neighbours are of different kinds, as far as they have been joined. -/
def TakeTurns (serial : UInt32) (state : List Token × Option UInt32) : Prop :=
  state.1.IsChain (fun t u => u.kind ≠ t.kind) ∧ (state.1 ≠ [] → state.2 = some serial)

theorem TakeTurns.joinNext {serial : UInt32} {state : List Token × Option UInt32}
    (h : TakeTurns serial state) {p : Piece}
    (hk : p.token.kind = .comment ∨ p.token.kind = .pragma) (hc : p.construct = some serial) :
    TakeTurns serial (joinNext state p) := by
  obtain ⟨tokens, construct⟩ := state
  obtain ⟨hchain, hserial⟩ := h
  cases tokens with
  | nil => exact ⟨.singleton _, fun _ => hc⟩
  | cons last done =>
      have hlast := hserial (List.cons_ne_nil _ _)
      rw [Token.joinNext]
      split
      · -- The token that grows keeps its kind.
        obtain ⟨hnext, hdone⟩ := List.isChain_cons.mp hchain
        exact ⟨List.isChain_cons.mpr ⟨hnext, hdone⟩, fun _ => hlast⟩
      · next hj =>
          refine ⟨List.isChain_cons_cons.mpr ⟨fun hkind => hj ?_, hchain⟩, fun _ => hc⟩
          refine (joins_of_kind hk rfl).mpr ⟨hkind, ?_, hlast.trans hc.symm⟩
          rw [hc]
          rfl

theorem isChain_kind_ne {serial : UInt32} {pieces : List Piece} (h : OfConstruct serial pieces) :
    (coalesce pieces).IsChain fun t u => t.kind ≠ u.kind := by
  have hall : TakeTurns serial (pieces.foldl joinNext ([], none)) :=
    List.foldlRecOn pieces joinNext ⟨.nil, fun hne => absurd rfl hne⟩
      fun _ hstate p hp => hstate.joinNext (h p hp).1 (h p hp).2
  rw [coalesce_eq_joinAll, joinAll, List.isChain_reverse]
  exact hall.1

/-- The first token is made of the run that the pieces begin with. -/
theorem exists_coalesce_cons (first : Piece) (rest : List Piece) :
    ∃ run back, rest = run ++ back ∧
      coalesce (first :: rest) = joined first run :: coalesce back := by
  obtain ⟨run, back, rfl, hchain, hstops⟩ := exists_firstRun first rest
  exact ⟨run, back, rfl, coalesce_first hchain hstops⟩

/-- The tokens of one construct take turns in their kinds, those with an even number being comments
where the first one is. -/
theorem kind_of_turn {serial : UInt32} {pieces : List Piece} (h : OfConstruct serial pieces)
    (hfirst : ∀ p ∈ pieces.head?, p.token.kind = .comment) (i : Nat)
    (hi : i < (coalesce pieces).length) :
    (coalesce pieces)[i].kind = if i % 2 = 0 then .comment else .pragma := by
  induction i with
  | zero =>
      cases pieces with
      | nil => cases hi
      | cons first rest =>
          obtain ⟨run, back, _, htokens⟩ := exists_coalesce_cons first rest
          simp only [htokens]
          exact hfirst first rfl
  | succ i ih =>
      have hprevious := ih (Nat.lt_of_succ_lt hi)
      have hne := List.isChain_iff_getElem.mp (isChain_kind_ne h) i hi
      obtain ⟨run, hrun, hmem, _⟩ := exists_run_of_mem_coalesce (List.getElem_mem hi)
      obtain ⟨p, run, rfl⟩ := List.exists_cons_of_ne_nil hrun
      obtain ⟨hp, hkind⟩ := hmem p List.mem_cons_self
      have hremark := (h p hp).1
      rw [hkind] at hremark
      rw [hprevious] at hne
      rcases Nat.mod_two_eq_zero_or_one i with heven | hodd
      · rw [if_pos heven] at hne
        rw [if_neg (by omega)]
        exact hremark.resolve_left hne.symm
      · rw [if_neg (by omega)] at hne
        rw [if_pos (by omega)]
        exact hremark.resolve_right hne.symm

end Token
end LiquidsoapHighlight
