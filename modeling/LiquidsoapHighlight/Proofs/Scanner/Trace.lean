import LiquidsoapHighlight.Proofs.Grammar.FirstMatch
import LiquidsoapHighlight.Proofs.Text.Boundary
import LiquidsoapHighlight.Scanner.Basic

/-!
The steps of a scan as a path from state to state. Whatever holds of a state and is kept by one step
holds after all of them; what the steps take, put together, is what has gone from the text.
-/

namespace LiquidsoapHighlight

namespace Grammar

theorem move_count_bounds (g : Grammar) (mode : Mode) {text : List Char} (h : text ≠ []) :
    0 < (g.move mode text).count ∧ (g.move mode text).count ≤ text.length := by
  unfold move
  split
  · next rule count hm =>
      obtain ⟨rules, _, hf⟩ := Option.bind_eq_some_iff.mp hm
      obtain ⟨_, hn⟩ := matchCount?_of_firstMatch? hf
      exact ⟨Pattern.matchCount?_pos hn, Pattern.matchCount?_le_length hn⟩
  · exact ⟨Nat.one_pos, List.length_pos_iff.mpr h⟩

theorem construct?_of_push (g : Grammar) (s : ModeStack) (mode : Mode) :
    g.construct? s (.push mode) =
      if g.encloses mode then some (s.pushes + 1)
      else if g.encloses s.top.mode then some s.top.serial else none :=
  rfl

theorem construct?_of_ne_push (g : Grammar) (s : ModeStack) {t : Transition}
    (h : ∀ mode, t ≠ .push mode) :
    g.construct? s t = if g.encloses s.top.mode then some s.top.serial else none := by
  cases t with
  | push mode => exact absurd rfl (h mode)
  | stay | pop | popTo _ | nest | unnest => rfl

end Grammar

namespace Scanner
variable {g : Grammar}

theorem next?_eq_none {s : Scanner} : s.next? g = none ↔ s.rest = [] := by
  cases hr : s.rest <;> simp [next?, hr]

/-- The step that a move makes. -/
theorem next?_of_move {s : Scanner} {move : Move} (hne : s.rest ≠ [])
    (hm : g.move s.stack.top.mode s.rest = move) :
    s.next? g = some
      (⟨⟨move.kind, s.offset, s.rest.take move.count⟩, g.construct? s.stack move.transition⟩,
        ⟨s.offset + Text.byteLength (s.rest.take move.count), s.rest.drop move.count,
          s.stack.apply move.transition⟩) := by
  simp only [next?, List.isEmpty_iff, hne, if_false, hm]
  rfl

/-- The step of a move that takes nothing of the end of the text. -/
theorem next?_of_move_append {s : Scanner} {front ending : List Char} {move : Move}
    (hr : s.rest = front ++ ending) (hne : s.rest ≠ [])
    (hm : g.move s.stack.top.mode s.rest = move) (hle : move.count ≤ front.length) :
    s.next? g = some
      (⟨⟨move.kind, s.offset, front.take move.count⟩, g.construct? s.stack move.transition⟩,
        ⟨s.offset + Text.byteLength (front.take move.count), front.drop move.count ++ ending,
          s.stack.apply move.transition⟩) := by
  rw [next?_of_move hne hm, hr, List.take_append_of_le_length hle,
    List.drop_append_of_le_length hle]

/-- A step, by the characters that its move takes. -/
theorem next?_eq_some {s : Scanner} {kind : TokenKind} {taken rest : List Char} {t : Transition}
    (hr : s.rest = taken ++ rest) (hne : taken ≠ [])
    (hm : g.move s.stack.top.mode s.rest = ⟨kind, taken.length, t⟩) :
    s.next? g = some (⟨⟨kind, s.offset, taken⟩, g.construct? s.stack t⟩,
      ⟨s.offset + Text.byteLength taken, rest, s.stack.apply t⟩) := by
  have hrest : s.rest ≠ [] := by
    rw [hr]
    exact List.append_ne_nil_of_left_ne_nil hne _
  rw [next?_of_move_append hr hrest hm (Nat.le_refl _), List.take_length, List.drop_length,
    List.nil_append]

theorem move_of_next? {s t : Scanner} {p : Piece} (h : s.next? g = some (p, t)) :
    s.rest ≠ [] ∧ ∃ move, move = g.move s.stack.top.mode s.rest ∧
      p = ⟨⟨move.kind, s.offset, s.rest.take move.count⟩,
        g.construct? s.stack move.transition⟩ ∧
      t = ⟨p.token.stop, s.rest.drop move.count, s.stack.apply move.transition⟩ := by
  have hne : s.rest ≠ [] := by
    intro he
    rw [next?_eq_none.mpr he] at h
    cases h
  rw [next?_of_move hne rfl] at h
  obtain ⟨rfl, rfl⟩ := Prod.mk.inj (Option.some.inj h)
  exact ⟨hne, _, rfl, rfl, rfl⟩

theorem text_next {s t : Scanner} {p : Piece} (h : s.next? g = some (p, t)) :
    p.token.text = s.rest.take (g.move s.stack.top.mode s.rest).count := by
  obtain ⟨_, _, rfl, rfl, _⟩ := move_of_next? h
  rfl

/-- A step takes characters from the front of what is left, and places them where it stands. -/
theorem next?_takes {s t : Scanner} {p : Piece} (h : s.next? g = some (p, t)) :
    p.token.text ≠ [] ∧ s.rest = p.token.text ++ t.rest ∧ p.token.start = s.offset ∧
      t.offset = p.token.stop := by
  obtain ⟨hne, move, rfl, rfl, rfl⟩ := move_of_next? h
  obtain ⟨hpos, _⟩ := g.move_count_bounds s.stack.top.mode hne
  refine ⟨?_, (List.take_append_drop _ _).symm, rfl, rfl⟩
  intro he
  cases List.take_eq_nil_iff.mp he with
  | inl h0 => omega
  | inr h0 => exact hne h0

inductive Trace (g : Grammar) : Scanner → List (Piece × Scanner) → Prop where
  | done (s : Scanner) : Trace g s []
  | step {s t : Scanner} {p : Piece} {rest : List (Piece × Scanner)} :
      s.next? g = some (p, t) → Trace g t rest → Trace g s ((p, t) :: rest)

theorem trace_run (limit : Nat) (s : Scanner) : Trace g s (run g limit s) := by
  induction limit generalizing s with
  | zero => exact .done s
  | succ limit ih =>
      simp only [run]
      split
      · exact .done s
      · next p t hn => exact .step hn (ih t)

theorem stateAfter_nil (s : Scanner) : s.stateAfter [] = s := rfl

theorem stateAfter_cons (s t : Scanner) (p : Piece) (rest : List (Piece × Scanner)) :
    s.stateAfter ((p, t) :: rest) = t.stateAfter rest := by
  cases rest with
  | nil => rfl
  | cons q rest =>
      obtain ⟨last, hl⟩ := Option.isSome_iff_exists.mp
        (List.getLast?_isSome.mpr (List.cons_ne_nil q rest))
      simp [stateAfter, List.getLast?_cons, hl]

theorem stateAfter_append (s : Scanner) (first rest : List (Piece × Scanner)) :
    s.stateAfter (first ++ rest) = (s.stateAfter first).stateAfter rest := by
  induction first generalizing s with
  | nil => rfl
  | cons x first ih =>
      obtain ⟨p, t⟩ := x
      rw [List.cons_append, stateAfter_cons, stateAfter_cons, ih]

theorem trace_append {s : Scanner} {first rest : List (Piece × Scanner)} :
    Trace g s (first ++ rest) ↔ Trace g s first ∧ Trace g (s.stateAfter first) rest := by
  induction first generalizing s with
  | nil => exact ⟨fun h => ⟨.done s, h⟩, fun h => h.2⟩
  | cons x first ih =>
      obtain ⟨p, t⟩ := x
      rw [List.cons_append, stateAfter_cons]
      constructor
      · intro h
        cases h with
        | step hn ht =>
            obtain ⟨h1, h2⟩ := ih.mp ht
            exact ⟨.step hn h1, h2⟩
      · rintro ⟨h1, h2⟩
        cases h1 with
        | step hn ht => exact .step hn (ih.mpr ⟨ht, h2⟩)

/-- What every step keeps, a path keeps. -/
theorem Trace.preserves {P : Scanner → Prop}
    (keep : ∀ {s t : Scanner} {p : Piece}, P s → s.next? g = some (p, t) → P t)
    {s : Scanner} {steps : List (Piece × Scanner)} (h : Trace g s steps) (hs : P s) :
    P (s.stateAfter steps) := by
  induction h with
  | done s => exact hs
  | step hn _ ih =>
      rw [stateAfter_cons]
      exact ih (keep hs hn)

/-- The characters that some steps take. -/
def taken (steps : List (Piece × Scanner)) : List Char :=
  steps.flatMap fun step => step.1.token.text

theorem taken_concat (first : List (Piece × Scanner)) (step : Piece × Scanner) :
    taken (first ++ [step]) = taken first ++ step.1.token.text := by
  simp [taken]

theorem Trace.rest_eq {s : Scanner} {steps : List (Piece × Scanner)} (h : Trace g s steps) :
    s.rest = taken steps ++ (s.stateAfter steps).rest := by
  induction h with
  | done s => rfl
  | @step s t p rest hn _ ih =>
      obtain ⟨_, hr, _, _⟩ := next?_takes hn
      rw [stateAfter_cons, hr, ih]
      simp [taken]

theorem Trace.offset_eq {s : Scanner} {steps : List (Piece × Scanner)} (h : Trace g s steps) :
    (s.stateAfter steps).offset = s.offset + Text.byteLength (taken steps) := by
  induction h with
  | done s => rfl
  | @step s t p rest hn _ ih =>
      obtain ⟨_, _, hs, ho⟩ := next?_takes hn
      rw [stateAfter_cons, ih, ho, Token.stop, Token.length, hs]
      simp only [taken, List.flatMap_cons, Text.byteLength_append]
      omega

theorem Trace.length_add_le {s : Scanner} {steps : List (Piece × Scanner)}
    (h : Trace g s steps) : steps.length + (s.stateAfter steps).rest.length ≤ s.rest.length := by
  induction h with
  | done s => simp [stateAfter_nil]
  | @step s t p rest hn _ ih =>
      obtain ⟨hne, hr, _, _⟩ := next?_takes hn
      have hpos := List.length_pos_iff.mpr hne
      rw [stateAfter_cons, hr, List.length_append, List.length_cons]
      omega

/-- Steps are told apart from fewer or more of the same by the number of bytes that they take. -/
theorem Trace.eq_of_byteLength {s : Scanner} {first rest first' rest' : List (Piece × Scanner)}
    (h : Trace g s (first ++ rest)) (he : first ++ rest = first' ++ rest')
    (hl : Text.byteLength (taken first) = Text.byteLength (taken first')) : first = first' := by
  induction first generalizing s first' with
  | nil =>
      cases first' with
      | nil => rfl
      | cons x first' =>
          rw [List.nil_append] at h he
          rw [he] at h
          cases h with
          | step hn _ =>
              have hpos := Text.byteLength_pos (next?_takes hn).1
              simp only [taken, List.flatMap_cons, List.flatMap_nil, Text.byteLength_append,
                Text.byteLength_nil] at hl
              omega
  | cons x first ih =>
      cases h with
      | step hn ht =>
          have hpos := Text.byteLength_pos (next?_takes hn).1
          cases first' with
          | nil =>
              simp only [taken, List.flatMap_cons, List.flatMap_nil, Text.byteLength_append,
                Text.byteLength_nil] at hl
              omega
          | cons y first' =>
              obtain ⟨rfl, htail⟩ := List.cons.inj he
              simp only [taken, List.flatMap_cons, Text.byteLength_append] at hl
              rw [ih ht htail (Nat.add_left_cancel hl)]

theorem rest_run_eq_nil (limit : Nat) (s : Scanner) (h : s.rest.length ≤ limit) :
    (s.stateAfter (run g limit s)).rest = [] := by
  induction limit generalizing s with
  | zero => exact List.eq_nil_of_length_eq_zero (Nat.le_zero.mp h)
  | succ limit ih =>
      simp only [run]
      split
      · next hn => exact next?_eq_none.mp hn
      · next p t hn =>
          obtain ⟨hne, hr, _, _⟩ := next?_takes hn
          have hpos := List.length_pos_iff.mpr hne
          rw [hr, List.length_append] at h
          rw [stateAfter_cons]
          exact ih t (by omega)

theorem trace_steps (g : Grammar) (text : List Char) :
    Trace g (start text) (steps g text) :=
  trace_run text.length (start text)

theorem rest_steps_eq_nil (g : Grammar) (text : List Char) :
    ((start text).stateAfter (steps g text)).rest = [] :=
  rest_run_eq_nil text.length (start text) (Nat.le_refl _)

/-- The steps of a text begin with the one that can be made at its start. -/
theorem exists_steps_eq_cons {text : List Char} {first : Piece × Scanner}
    (h : (start text).next? g = some first) : ∃ rest, steps g text = first :: rest := by
  have htrace := trace_steps g text
  have hend := rest_steps_eq_nil g text
  generalize steps g text = all at htrace hend
  cases htrace with
  | done =>
      have hnone : (start text).next? g = none := next?_eq_none.mpr hend
      rw [hnone] at h
      cases h
  | step hn _ =>
      obtain rfl := Option.some.inj (hn.symm.trans h)
      exact ⟨_, rfl⟩

/-- A path to the end of the text is the run from its first state. -/
theorem Trace.eq_run {s : Scanner} {steps : List (Piece × Scanner)} (h : Trace g s steps)
    (hend : (s.stateAfter steps).rest = []) {limit : Nat} (hl : s.rest.length ≤ limit) :
    steps = run g limit s := by
  induction h generalizing limit with
  | done s =>
      have hnone : s.next? g = none := next?_eq_none.mpr hend
      cases limit with
      | zero => rfl
      | succ limit => simp [run, hnone]
  | @step s t p rest hn _ ih =>
      obtain ⟨hne, hr, _, _⟩ := next?_takes hn
      have hpos := List.length_pos_iff.mpr hne
      rw [stateAfter_cons] at hend
      rw [hr, List.length_append] at hl
      cases limit with
      | zero => omega
      | succ limit =>
          have hle : t.rest.length ≤ limit := by omega
          simp only [run, hn, ← ih hend hle]

theorem Trace.eq_steps {text : List Char} {all : List (Piece × Scanner)}
    (h : Trace g (start text) all) (hend : ((start text).stateAfter all).rest = []) :
    all = steps g text :=
  h.eq_run hend (Nat.le_refl _)

/-- The state of a scan after its first steps, of which there may be fewer than asked for. -/
def after (g : Grammar) (text : List Char) (count : Nat) : Scanner :=
  (start text).stateAfter ((steps g text).take count)

theorem trace_take_drop (g : Grammar) (text : List Char) (count : Nat) :
    Trace g (start text) ((steps g text).take count) ∧
      Trace g (after g text count) ((steps g text).drop count) := by
  apply trace_append.mp
  rw [List.take_append_drop]
  exact trace_steps g text

/-- A scan stands at each offset in one state at most. -/
theorem after_eq_of_offset {text : List Char} {count count' : Nat}
    (h : (after g text count).offset = (after g text count').offset) :
    after g text count = after g text count' := by
  obtain ⟨htake, hdrop⟩ := trace_take_drop g text count
  have hlength : Text.byteLength (taken ((steps g text).take count)) =
      Text.byteLength (taken ((steps g text).take count')) := by
    rw [after, after, htake.offset_eq, (trace_take_drop g text count').1.offset_eq] at h
    exact Nat.add_left_cancel h
  have hsplit := (List.take_append_drop count (steps g text)).trans
    (List.take_append_drop count' (steps g text)).symm
  rw [after, (trace_append.mpr ⟨htake, hdrop⟩).eq_of_byteLength hsplit hlength, after]

theorem after_add {text : List Char} {count : Nat} {first rest : List (Piece × Scanner)}
    (h : (steps g text).drop count = first ++ rest) :
    after g text (count + first.length) = (after g text count).stateAfter first := by
  rw [after, List.take_add, h, List.take_left, stateAfter_append]
  rfl

/-- The steps from some state of a scan on go to the end of the text. -/
theorem rest_drop_steps_eq_nil (g : Grammar) (text : List Char) (count : Nat) :
    ((after g text count).stateAfter ((steps g text).drop count)).rest = [] := by
  have hend := rest_steps_eq_nil g text
  rwa [← List.take_append_drop count (steps g text), stateAfter_append] at hend

theorem steps_eq_around {text : List Char} {count : Nat} {step : Piece × Scanner}
    {rest : List (Piece × Scanner)} (hstep : (steps g text)[count]? = some step)
    (hrest : (steps g text).drop (count + 1) = rest) :
    steps g text = (steps g text).take count ++ step :: rest := by
  have hall := List.take_append_drop count (steps g text)
  rwa [List.drop_eq_getElem?_toList_append, hstep, hrest, eq_comm] at hall

theorem length_rest_after_le (g : Grammar) (text : List Char) (count : Nat) :
    (after g text count).rest.length ≤ text.length :=
  Nat.le_of_add_left_le (trace_take_drop g text count).1.length_add_le

/-- What holds at the start of a scan and is kept by each step holds throughout. -/
theorem after_preserves {P : Scanner → Prop} (text : List Char) (hs : P (start text))
    (keep : ∀ {s t : Scanner} {p : Piece}, P s → s.next? g = some (p, t) → P t) (count : Nat) :
    P (after g text count) :=
  (trace_take_drop g text count).1.preserves keep hs

end Scanner
end LiquidsoapHighlight
