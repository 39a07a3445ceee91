import LiquidsoapHighlight.Proofs.Scanner.Trace
import LiquidsoapHighlight.Proofs.Token.Runs

/-!
Tokens placed one after another, without gaps. The pieces of a scan are placed so, and joining them
leaves the tokens so placed.
-/

namespace LiquidsoapHighlight
namespace Token

/-- The first token starts at the offset, and each other one where the one before it stops. -/
def Placed : Nat → List Token → Prop
  | _, [] => True
  | offset, t :: rest => t.start = offset ∧ t.text ≠ [] ∧ Placed t.stop rest

def texts (tokens : List Token) : List Char := tokens.flatMap text

theorem texts_cons (t : Token) (rest : List Token) : texts (t :: rest) = t.text ++ texts rest :=
  List.flatMap_cons

theorem texts_append (first rest : List Token) :
    texts (first ++ rest) = texts first ++ texts rest :=
  List.flatMap_append

theorem placed_append {offset : Nat} {first rest : List Token} :
    Placed offset (first ++ rest) ↔
      Placed offset first ∧ Placed (offset + Text.byteLength (texts first)) rest := by
  induction first generalizing offset with
  | nil => simp [Placed, texts, Text.byteLength_nil]
  | cons t first ih =>
      simp only [List.cons_append, Placed, ih, texts_cons, Text.byteLength_append]
      constructor
      · rintro ⟨rfl, hne, hfirst, hrest⟩
        refine ⟨⟨rfl, hne, hfirst⟩, ?_⟩
        rwa [← Nat.add_assoc]
      · rintro ⟨⟨rfl, hne, hfirst⟩, hrest⟩
        refine ⟨rfl, hne, hfirst, ?_⟩
        rwa [← Nat.add_assoc] at hrest

/-- Where a placed token stands in the text that the tokens make up. -/
theorem Placed.exists_around {offset : Nat} {tokens : List Token} (h : Placed offset tokens)
    {t : Token} (ht : t ∈ tokens) :
    t.text ≠ [] ∧ ∃ front back, texts tokens = front ++ t.text ++ back ∧
      t.start = offset + Text.byteLength front := by
  obtain ⟨first, rest, rfl⟩ := List.append_of_mem ht
  obtain ⟨_, hstart, hne, _⟩ := placed_append.mp h
  refine ⟨hne, texts first, texts rest, ?_, hstart⟩
  rw [texts_append, texts_cons, List.append_assoc]

theorem Placed.isChain {offset : Nat} {tokens : List Token} (h : Placed offset tokens) :
    tokens.IsChain fun t u => t.stop = u.start := by
  induction tokens generalizing offset with
  | nil => exact .nil
  | cons t rest ih =>
      obtain ⟨_, _, hrest⟩ := h
      rw [List.isChain_cons]
      refine ⟨?_, ih hrest⟩
      intro u hu
      cases rest with
      | nil => simp at hu
      | cons v rest =>
          obtain rfl := Option.some.inj hu
          exact hrest.1.symm

theorem Placed.stop_getLast {offset : Nat} {tokens : List Token} (h : Placed offset tokens) :
    (tokens.getLast?.map stop).getD offset = offset + Text.byteLength (texts tokens) := by
  rcases List.eq_nil_or_concat' tokens with rfl | ⟨init, last, rfl⟩
  · rfl
  · obtain ⟨_, hstart, _, _⟩ := placed_append.mp h
    simp only [List.getLast?_concat, Option.map_some, Option.getD_some, stop, length, hstart]
    simp [texts, Text.byteLength_append, Nat.add_assoc]

/-- The tokens share a byte. -/
def overlaps (t u : Token) : Bool := decide (t.start < u.stop ∧ u.start < t.stop)

theorem Placed.within {offset : Nat} {tokens : List Token} (h : Placed offset tokens) {t : Token}
    (ht : t ∈ tokens) :
    offset ≤ t.start ∧ t.start < t.stop ∧ t.stop ≤ offset + Text.byteLength (texts tokens) := by
  obtain ⟨hne, front, back, htexts, hstart⟩ := h.exists_around ht
  have hpos := Text.byteLength_pos hne
  rw [htexts, Text.byteLength_append, Text.byteLength_append, stop, length]
  omega

/-- Of placed tokens, none but the token itself shares a byte with it. -/
theorem Placed.filter_overlaps {offset : Nat} {front back : List Token} {t : Token}
    (h : Placed offset (front ++ t :: back)) : (front ++ t :: back).filter t.overlaps = [t] := by
  have hself := (h.within (List.mem_append_cons_self)).2.1
  obtain ⟨hfront, hstart, _, hback⟩ := placed_append.mp h
  have hbefore : front.filter t.overlaps = [] := by
    rw [List.filter_eq_nil_iff]
    intro u hu
    have hstop := (hfront.within hu).2.2
    simp only [overlaps, decide_eq_true_eq]
    omega
  have hafter : back.filter t.overlaps = [] := by
    rw [List.filter_eq_nil_iff]
    intro u hu
    have hle := (hback.within hu).1
    simp only [overlaps, decide_eq_true_eq]
    omega
  have hsame : t.overlaps t = true := decide_eq_true ⟨hself, hself⟩
  rw [List.filter_append, List.filter_cons_of_pos hsame, hbefore, hafter, List.nil_append]

/-- Joining the runs of placed pieces, one token for each run. -/
theorem placed_ofRun {offset : Nat} {runs : List (List Piece)} (hne : [] ∉ runs)
    (h : Placed offset (runs.flatten.map Piece.token)) :
    Placed offset (runs.filterMap ofRun) ∧
      texts (runs.filterMap ofRun) = texts (runs.flatten.map Piece.token) := by
  induction runs generalizing offset with
  | nil => exact ⟨trivial, rfl⟩
  | cons run runs ih =>
      cases run with
      | nil => exact absurd List.mem_cons_self hne
      | cons p run =>
          rw [List.flatten_cons, List.map_append] at h ⊢
          obtain ⟨hrun, hruns⟩ := placed_append.mp h
          obtain ⟨hplaced, htexts⟩ := ih (fun hm => hne (List.mem_cons_of_mem _ hm)) hruns
          have hself : texts ((p :: run).map Piece.token) =
              (p :: run).flatMap fun q => q.token.text := by
            rw [texts, List.flatMap_map]
          have hstop : offset + Text.byteLength (texts ((p :: run).map Piece.token)) =
              stop ⟨p.token.kind, p.token.start, (p :: run).flatMap fun q => q.token.text⟩ := by
            rw [stop, length, hrun.1, hself]
          rw [hstop] at hplaced
          refine ⟨⟨hrun.1, ?_, hplaced⟩, ?_⟩
          · simp only [List.flatMap_cons]
            exact List.append_ne_nil_of_left_ne_nil hrun.2.1 _
          · rw [texts_append, ← htexts, hself]
            rfl

theorem placed_coalesce {offset : Nat} {pieces : List Piece}
    (h : Placed offset (pieces.map Piece.token)) :
    Placed offset (coalesce pieces) ∧
      texts (coalesce pieces) = texts (pieces.map Piece.token) := by
  have hflat : (groups pieces).flatten = pieces := by
    rw [groups_eq_splitBy, List.flatten_splitBy]
  have hne : [] ∉ groups pieces := by
    rw [groups_eq_splitBy]
    exact List.nil_notMem_splitBy _ _
  have hall : Placed offset ((groups pieces).flatten.map Piece.token) := by rwa [hflat]
  have hruns := placed_ofRun hne hall
  rwa [hflat] at hruns

end Token

namespace Scanner

theorem Trace.placed {g : Grammar} {s : Scanner} {steps : List (Piece × Scanner)}
    (h : Trace g s steps) : Token.Placed s.offset (steps.map fun step => step.1.token) := by
  induction h with
  | done s => trivial
  | @step s t p rest hn _ ih =>
      obtain ⟨hne, _, hs, ho⟩ := next?_takes hn
      rw [ho] at ih
      exact ⟨hs, hne, ih⟩

/-- The tokens of some steps, one after another, are what the steps take. -/
theorem Trace.placed_coalesce {g : Grammar} {s : Scanner} {steps : List (Piece × Scanner)}
    (h : Trace g s steps) :
    Token.Placed s.offset (Token.coalesce (steps.map Prod.fst)) ∧
      Token.texts (Token.coalesce (steps.map Prod.fst)) = taken steps := by
  have hplaced : Token.Placed s.offset ((steps.map Prod.fst).map Piece.token) := by
    rw [List.map_map]
    exact h.placed
  obtain ⟨hjoined, htexts⟩ := Token.placed_coalesce hplaced
  refine ⟨hjoined, htexts.trans ?_⟩
  rw [List.map_map, Token.texts, List.flatMap_map]
  rfl

theorem placed_pieces (g : Grammar) (text : List Char) :
    Token.Placed 0 ((pieces g text).map Piece.token) ∧
      Token.texts ((pieces g text).map Piece.token) = text := by
  have htrace := trace_steps g text
  have hplaced := htrace.placed
  have hrest := htrace.rest_eq
  rw [rest_steps_eq_nil, List.append_nil] at hrest
  rw [pieces, List.map_map]
  refine ⟨hplaced, ?_⟩
  rw [Token.texts, List.flatMap_map]
  exact hrest.symm

theorem placed_scan (g : Grammar) (text : List Char) :
    Token.Placed 0 (Token.scan g text) ∧ Token.texts (Token.scan g text) = text := by
  have htrace := trace_steps g text
  obtain ⟨hplaced, htexts⟩ := htrace.placed_coalesce
  have hrest := htrace.rest_eq
  rw [rest_steps_eq_nil, List.append_nil] at hrest
  exact ⟨hplaced, htexts.trans hrest.symm⟩

end Scanner
end LiquidsoapHighlight
