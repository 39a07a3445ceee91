import LiquidsoapHighlight.Proofs.Liquidsoap.StackShape

/-!
The holes in strings nest: each closing sign ends the hole of the opening sign that it matches, and
the scan is back in the very string that the hole was opened in.
-/

namespace LiquidsoapHighlight

def Mode.isHole : Mode → Bool
  | doubleInterpolation | singleInterpolation => true
  | _ => false

namespace Liquidsoap

theorem Quote.isHole_interpolation (q : Quote) : q.interpolation.isHole = true := by
  cases q <;> rfl

theorem Quote.isHole_string (q : Quote) : q.string.isHole = false := by
  cases q <;> rfl

def opensHole (p : Piece) : Bool :=
  p.token.kind == .interpolation && p.token.text == interpolationOpen

def closesHole (p : Piece) : Bool :=
  p.token.kind == .interpolation && p.token.text == interpolationClose

/-- What lies under each hole of a stack, that of the innermost hole first. -/
def underHoles : List Frame → List (List Frame)
  | [] => []
  | frame :: below =>
    if frame.mode.isHole then below :: underHoles below else underHoles below

theorem length_underHoles (frames : List Frame) :
    (underHoles frames).length = frames.countP fun frame => frame.mode.isHole := by
  induction frames with
  | nil => rfl
  | cons frame below ih =>
      cases hm : frame.mode.isHole <;> simp [underHoles, hm, ih]

theorem underHoles_hole {s : ModeStack} (h : s.top.mode.isHole = true) :
    underHoles s.frames = s.below :: underHoles s.below := by
  simp [ModeStack.frames, underHoles, h]

theorem underHoles_push {mode : Mode} (h : mode.isHole = false) (s : ModeStack) :
    underHoles (s.push mode).frames = underHoles s.frames := by
  simp [ModeStack.push, ModeStack.frames, underHoles, h]

theorem underHoles_pop {s : ModeStack} (h : s.top.mode.isHole = false) :
    underHoles s.pop.frames = underHoles s.frames := by
  obtain ⟨top, below, pushes⟩ := s
  cases below with
  | nil => rfl
  | cons frame below => simp [ModeStack.pop, ModeStack.frames, underHoles, h]

theorem underHoles_unnest {s : ModeStack} (h : s.top.mode.isHole = false) :
    underHoles s.unnest.frames = underHoles s.frames := by
  unfold ModeStack.unnest
  split
  · exact underHoles_pop h
  · rfl

/-- A hole ends: its frame and no other is gone, and its own string is on top. -/
structure EndsHole (before after : ModeStack) : Prop where
  mode : ∃ q : Quote, before.top.mode = q.interpolation ∧ after = before.popTo q.string ∧
    after.top.mode = q.string
  frames : before.frames = before.top :: after.frames

theorem EndsHole.underHoles_eq {before after : ModeStack} (h : EndsHole before after) :
    underHoles before.frames = after.frames :: underHoles after.frames := by
  obtain ⟨q, hq, _, _⟩ := h.mode
  have hb : before.below = after.frames := (List.cons.inj h.frames).2
  rw [underHoles_hole (hq ▸ q.isHole_interpolation), hb]

/-- The end of a hole leads back to the frames that were there when the hole was opened. -/
theorem EndsHole.frames_eq {start opened last after : ModeStack} (h : EndsHole last after)
    (hi : underHoles last.frames = underHoles opened.frames)
    (ho : underHoles opened.frames = start.frames :: underHoles start.frames) :
    after.frames = start.frames := by
  have hu := (h.underHoles_eq.symm.trans hi).trans ho
  exact (List.cons.inj hu).1

theorem endsHole_popTo {s : ModeStack} {q : Quote} (hs : WellNested s.frames)
    (hm : s.top.mode = q.interpolation) : EndsHole s (s.popTo q.string) := by
  obtain ⟨hframes, hmode⟩ := hs.popTo_hole hm
  exact ⟨⟨q, hm, rfl, hmode⟩, congrArg (List.cons s.top) hframes.symm⟩

/-- How a step that goes from one stack to another changes the holes. -/
inductive HoleChange (before after : ModeStack) (p : Piece) : Prop where
  | opens : opensHole p = true → closesHole p = false →
      underHoles after.frames = before.frames :: underHoles before.frames →
      HoleChange before after p
  | closes : opensHole p = false → closesHole p = true → EndsHole before after →
      HoleChange before after p
  | keeps : opensHole p = false → closesHole p = false →
      underHoles after.frames = underHoles before.frames → HoleChange before after p

namespace HoleChange
variable {before after : ModeStack} {p : Piece}

theorem of_opens (h : HoleChange before after p) (ho : opensHole p = true) :
    underHoles after.frames = before.frames :: underHoles before.frames := by
  cases h with
  | opens _ _ hu => exact hu
  | closes hf | keeps hf =>
      rw [hf] at ho
      cases ho

theorem of_closes (h : HoleChange before after p) (hc : closesHole p = true) :
    EndsHole before after := by
  cases h with
  | closes _ _ he => exact he
  | opens _ hf | keeps _ hf =>
      rw [hf] at hc
      cases hc

theorem of_neither (h : HoleChange before after p) (ho : opensHole p = false)
    (hc : closesHole p = false) : underHoles after.frames = underHoles before.frames := by
  cases h with
  | keeps _ _ hu => exact hu
  | opens ht =>
      rw [ht] at ho
      cases ho
  | closes _ ht =>
      rw [ht] at hc
      cases hc

end HoleChange

theorem holeChange_of_kind {before after : ModeStack} {p : Piece}
    (hk : p.token.kind ≠ .interpolation)
    (hu : underHoles after.frames = underHoles before.frames) : HoleChange before after p :=
  .keeps (by simp [opensHole, hk]) (by simp [closesHole, hk]) hu

theorem holeChange_next {s t : Scanner} {p : Piece} (hs : WellNested s.stack.frames)
    (hn : s.next? grammar = some (p, t)) : HoleChange s.stack t.stack p := by
  obtain ⟨kind, taken, rest, transition, _, he, rfl, rfl⟩ := exists_effect hn
  generalize hm : s.stack.top.mode = mode at he
  cases he with
  | content _ hc =>
      refine holeChange_of_kind ?_ rfl
      rintro rfl
      cases mode <;> exact absurd hc (by decide)
  | openComment | openLine | openArgsof | openBrace =>
      exact holeChange_of_kind nofun (underHoles_push rfl s.stack)
  | openString q => exact holeChange_of_kind nofun (underHoles_push q.isHole_string s.stack)
  | openHole q =>
      refine .opens rfl rfl ?_
      exact underHoles_hole (s := s.stack.push q.interpolation) q.isHole_interpolation
  | closeHole q => exact .closes rfl rfl (endsHole_popTo hs hm)
  | closeBrace | endLine => exact holeChange_of_kind nofun (underHoles_pop (hm ▸ rfl))
  | closeString q => exact holeChange_of_kind nofun (underHoles_pop (hm ▸ q.isHole_string))
  | nestComment | nestParens => exact holeChange_of_kind nofun rfl
  | unnestComment | unnestParens =>
      exact holeChange_of_kind nofun (underHoles_unnest (hm ▸ rfl))

/-- Steps in which each sign that opens a hole is matched by one that closes it. -/
inductive Balanced : List (Piece × Scanner) → Prop where
  | nil : Balanced []
  | skip {step : Piece × Scanner} {rest : List (Piece × Scanner)} :
      opensHole step.1 = false → closesHole step.1 = false → Balanced rest →
      Balanced (step :: rest)
  | hole {opener closer : Piece × Scanner} {inner rest : List (Piece × Scanner)} :
      opensHole opener.1 = true → Balanced inner → closesHole closer.1 = true → Balanced rest →
      Balanced (opener :: (inner ++ closer :: rest))

/-- Steps with the given number of signs that open holes and are not matched. -/
inductive Pending : List (Piece × Scanner) → Nat → Prop where
  | balanced {steps : List (Piece × Scanner)} : Balanced steps → Pending steps 0
  | opener {outer inner : List (Piece × Scanner)} {opener : Piece × Scanner} {count : Nat} :
      Pending outer count → opensHole opener.1 = true → Balanced inner →
      Pending (outer ++ opener :: inner) (count + 1)

theorem closesHole_of_opensHole {p : Piece} (h : opensHole p = true) :
    closesHole p = false := by
  simp only [opensHole, Bool.and_eq_true, beq_iff_eq] at h
  simp [closesHole, h.2, interpolationOpen, interpolationClose]

theorem opensHole_of_closesHole {p : Piece} (h : closesHole p = true) :
    opensHole p = false := by
  cases ho : opensHole p with
  | false => rfl
  | true => rw [closesHole_of_opensHole ho] at h; cases h

namespace Balanced

theorem append {first rest : List (Piece × Scanner)} (hf : Balanced first)
    (hr : Balanced rest) : Balanced (first ++ rest) := by
  induction hf with
  | nil => exact hr
  | skip ho hc _ ih => exact .skip ho hc ih
  | hole ho hi hc _ _ ih =>
      rw [List.cons_append, List.append_assoc, List.cons_append]
      exact .hole ho hi hc ih

theorem countP_eq {steps : List (Piece × Scanner)} (h : Balanced steps) :
    steps.countP (fun step => opensHole step.1) =
      steps.countP (fun step => closesHole step.1) := by
  induction h with
  | nil => rfl
  | skip ho hc _ ih => simp [ho, hc, ih]
  | hole ho _ hc _ ihi ihr =>
      simp [ho, hc, closesHole_of_opensHole ho, opensHole_of_closesHole hc, ihi, ihr]
      omega

theorem underHoles_eq {steps : List (Piece × Scanner)} (h : Balanced steps) {s : Scanner}
    (ht : Scanner.Trace grammar s steps) (hs : WellNested s.stack.frames) :
    underHoles (s.stateAfter steps).stack.frames = underHoles s.stack.frames := by
  induction h generalizing s with
  | nil => rfl
  | skip ho hc _ ih =>
      cases ht with
      | step hn ht =>
          have hkeeps := (holeChange_next hs hn).of_neither ho hc
          rw [Scanner.stateAfter_cons, ih ht (wellNested_next hs hn), hkeeps]
  | @hole _ _ inner rest ho _ hc _ ihi ihr =>
      cases ht with
      | @step _ t _ _ hn ht =>
          obtain ⟨hti, htc⟩ := Scanner.trace_append.mp ht
          have hst := wellNested_next hs hn
          have hsi := hti.preserves wellNested_next hst
          have hopen := (holeChange_next hs hn).of_opens ho
          have hinner := ihi hti hst
          -- What lies under the hole is still as the opening sign left it.
          cases htc with
          | @step _ u _ _ hnc htr =>
              have hends := (holeChange_next hsi hnc).of_closes hc
              rw [Scanner.stateAfter_cons, Scanner.stateAfter_append, Scanner.stateAfter_cons,
                ihr htr (wellNested_next hsi hnc), hends.frames_eq hinner hopen]

end Balanced

def openHoles (s : ModeStack) : Nat :=
  s.frames.countP fun frame => frame.mode.isHole

namespace Pending

theorem append_balanced {steps inner : List (Piece × Scanner)} {count : Nat}
    (h : Pending steps count) (hi : Balanced inner) : Pending (steps ++ inner) count := by
  cases h with
  | balanced hs => exact .balanced (hs.append hi)
  | opener hp ho hs =>
      rw [List.append_assoc, List.cons_append]
      exact .opener hp ho (hs.append hi)

theorem countP_eq {steps : List (Piece × Scanner)} {count : Nat} (h : Pending steps count) :
    steps.countP (fun step => opensHole step.1) =
      steps.countP (fun step => closesHole step.1) + count := by
  induction h with
  | balanced hs => exact hs.countP_eq
  | opener _ ho hi ih =>
      simp [ho, closesHole_of_opensHole ho, ih, hi.countP_eq]
      omega

/-- A sign that closes a hole matches the last of the pending signs. -/
theorem exists_opener {steps : List (Piece × Scanner)} {count : Nat}
    (h : Pending steps (count + 1)) : ∃ outer opener inner, steps = outer ++ opener :: inner ∧
      opensHole opener.1 = true ∧ Balanced inner ∧ Pending outer count := by
  cases h with
  | opener hp ho hi => exact ⟨_, _, _, rfl, ho, hi, hp⟩

theorem next {steps : List (Piece × Scanner)} {before after : ModeStack}
    (h : Pending steps (openHoles before)) (step : Piece × Scanner)
    (hc : HoleChange before after step.1) : Pending (steps ++ [step]) (openHoles after) := by
  simp only [openHoles, ← length_underHoles] at h ⊢
  cases hc with
  | opens ho _ hu =>
      rw [hu]
      exact .opener h ho .nil
  | closes _ hcl he =>
      rw [he.underHoles_eq] at h
      obtain ⟨outer, opener, inner, rfl, ho, hi, hp⟩ := h.exists_opener
      rw [List.append_assoc, List.cons_append]
      exact hp.append_balanced (.hole ho hi hcl .nil)
  | keeps ho hcl hu =>
      rw [hu]
      exact h.append_balanced (.skip ho hcl .nil)

theorem trace {s : Scanner} {rest : List (Piece × Scanner)} (ht : Scanner.Trace grammar s rest)
    (hs : WellNested s.stack.frames) {first : List (Piece × Scanner)}
    (h : Pending first (openHoles s.stack)) :
    Pending (first ++ rest) (openHoles (s.stateAfter rest).stack) := by
  induction ht generalizing first with
  | done s =>
      rw [List.append_nil]
      exact h
  | @step _ t p rest hn _ ih =>
      have hp := ih (wellNested_next hs hn) (h.next (p, t) (holeChange_next hs hn))
      rwa [List.append_assoc, List.singleton_append, ← Scanner.stateAfter_cons] at hp

end Pending

theorem pending_of_trace {text : List Char} {first : List (Piece × Scanner)}
    (ht : Scanner.Trace grammar (.start text) first) :
    Pending first (openHoles ((Scanner.start text).stateAfter first).stack) :=
  Pending.trace ht (wellNested_start text) (.balanced .nil)

/-- Throughout a scan, as many holes are open as the signs read so far leave unmatched. A closing
sign ends one hole, and the frames that remain are those that its opening sign found. -/
theorem holes_nest (text : List Char) :
    (∀ count, ((Scanner.pieces grammar text).take count).countP opensHole =
      ((Scanner.pieces grammar text).take count).countP closesHole +
        openHoles (Scanner.after grammar text count).stack) ∧
    ∀ before closer back, Scanner.steps grammar text = before ++ closer :: back →
      closesHole closer.1 = true →
      EndsHole ((Scanner.start text).stateAfter before).stack closer.2.stack ∧
      (∃ outer opener inner, before = outer ++ opener :: inner ∧ opensHole opener.1 = true ∧
        Balanced inner) ∧
      ∀ outer opener inner, before = outer ++ opener :: inner → opensHole opener.1 = true →
        Balanced inner →
        closer.2.stack.frames = ((Scanner.start text).stateAfter outer).stack.frames := by
  constructor
  · intro count
    have hp := (pending_of_trace (Scanner.trace_take_drop grammar text count).1).countP_eq
    simp only [Scanner.pieces, ← List.map_take, List.countP_map]
    exact hp
  · rintro before ⟨p, t⟩ back hsteps hc
    have ht := Scanner.trace_steps grammar text
    rw [hsteps] at ht
    obtain ⟨htb, htc⟩ := Scanner.trace_append.mp ht
    have hs := htb.preserves wellNested_next (wellNested_start text)
    cases htc with
    | step hn _ =>
        have hends := (holeChange_next hs hn).of_closes hc
        refine ⟨hends, ?_, ?_⟩
        · have hp := pending_of_trace htb
          rw [openHoles, ← length_underHoles, hends.underHoles_eq] at hp
          obtain ⟨outer, opener, inner, he, ho, hi, _⟩ := hp.exists_opener
          exact ⟨outer, opener, inner, he, ho, hi⟩
        · rintro outer opener inner rfl ho hi
          obtain ⟨hto, hti⟩ := Scanner.trace_append.mp htb
          have hso := hto.preserves wellNested_next (wellNested_start text)
          cases hti with
          | step hno hti =>
              rw [Scanner.stateAfter_append, Scanner.stateAfter_cons] at hends
              have hopen := (holeChange_next hso hno).of_opens ho
              exact hends.frames_eq (hi.underHoles_eq hti (wellNested_next hso hno)) hopen

/-- A string with a hole, in which there is a string with a hole. -/
def nestedHoles : List Char := "\"#\x7b\"#\x7ba\x7d\"\x7d\"".toList

/-- The outer hole of these nested strings ends in the outer string. -/
theorem outer_hole_ends :
    EndsHole (Scanner.after grammar nestedHoles 7).stack
        (Scanner.after grammar nestedHoles 8).stack ∧
      (Scanner.after grammar nestedHoles 8).stack.frames =
        (Scanner.after grammar nestedHoles 1).stack.frames := by
  have h := (holes_nest nestedHoles).2
  have hsigns : (Scanner.steps grammar nestedHoles).map
      (fun step => (opensHole step.1, closesHole step.1)) =
        [(false, false), (true, false), (false, false), (true, false), (false, false),
          (false, true), (false, false), (false, true), (false, false)] := by
    decide +kernel
  unfold Scanner.after
  generalize Scanner.steps grammar nestedHoles = steps at h hsigns
  simp only [List.map_eq_cons_iff, List.map_eq_nil_iff, Prod.mk.injEq] at hsigns
  obtain ⟨a, _, rfl, _, b, _, rfl, hb, c, _, rfl, hc, d, _, rfl, hd, e, _, rfl, he, f, _, rfl, hf,
    g, _, rfl, hg, i, _, rfl, hi, j, _, rfl, _, rfl⟩ := hsigns
  have hhole : Balanced (d :: ([e] ++ f :: [g])) :=
    .hole hd.1 (.skip he.1 he.2 .nil) hf.2 (.skip hg.1 hg.2 .nil)
  have hinner : Balanced [c, d, e, f, g] := .skip hc.1 hc.2 hhole
  obtain ⟨hends, _, hframes⟩ := h [a, b, c, d, e, f, g] i [j] rfl hi.2
  exact ⟨hends, hframes [a] b [c, d, e, f, g] rfl hb.1 hinner⟩

end Liquidsoap
end LiquidsoapHighlight
