import LiquidsoapHighlight.Proofs.Token.Placed

/-!
Every text is covered by its pieces, and by its tokens, without gaps or overlaps, in at most as many
steps as it has characters. All offsets at which the text is sliced on the way lie between two
characters.
-/

namespace LiquidsoapHighlight

/-- Tokens that cover a text: spans of bytes that follow each other from its start to its end, each
of them holding the characters of the token. -/
structure Token.Tiling (text : List Char) (tokens : List Token) : Prop where
  first : ∀ t ∈ tokens.head?, t.start = 0
  adjacent : tokens.IsChain fun t u => t.stop = u.start
  progress : ∀ t ∈ tokens, t.start < t.stop
  last : (tokens.getLast?.map Token.stop).getD 0 = Text.byteLength text
  boundaries : ∀ t ∈ tokens, Text.IsBoundary text t.start ∧ Text.IsBoundary text t.stop
  sliced : ∀ t ∈ tokens, text.utf8Encode.extract t.start t.stop = t.text.utf8Encode

theorem Token.Placed.tiling {tokens : List Token} (h : Placed 0 tokens) :
    Tiling (texts tokens) tokens where
  first := by
    intro t ht
    cases tokens with
    | nil => simp at ht
    | cons u rest =>
        obtain rfl := Option.some.inj ht
        exact h.1
  adjacent := h.isChain
  progress := by
    intro t ht
    have hpos := Text.byteLength_pos (h.exists_around ht).1
    rw [stop, length]
    omega
  last := by
    rw [h.stop_getLast, Nat.zero_add]
  boundaries := by
    intro t ht
    obtain ⟨_, front, back, htext, hstart⟩ := h.exists_around ht
    rw [Nat.zero_add] at hstart
    rw [htext, stop, length, hstart, ← Text.byteLength_append]
    refine ⟨?_, Text.isBoundary_byteLength _ _⟩
    rw [List.append_assoc]
    exact Text.isBoundary_byteLength _ _
  sliced := by
    intro t ht
    obtain ⟨_, front, back, htext, hstart⟩ := h.exists_around ht
    rw [Nat.zero_add] at hstart
    rw [htext, stop, length, hstart]
    exact Text.extract_utf8Encode front t.text back

/-- The offsets at which matching slices the text that is left: after the word there, and after a
match whose next character is looked at. -/
def Pattern.sliceOffsets (p : Pattern) (rest : List Char) : List Nat :=
  match p with
  | .keywords _ => [Text.byteLength (Word.run rest)]
  | .expression e true =>
    ((e.matchCount? rest).map fun count => Text.byteLength (rest.take count)).toList
  | _ => []

theorem Pattern.isBoundary_sliceOffsets (p : Pattern) (rest : List Char) :
    ∀ offset ∈ p.sliceOffsets rest, Text.IsBoundary rest offset := by
  intro offset ho
  cases p with
  | literal _ | oneOf _ | anyChar => simp [sliceOffsets] at ho
  | keywords words =>
      obtain rfl := List.mem_singleton.mp ho
      obtain ⟨back, hb⟩ := Word.run_prefix rest
      have h := Text.isBoundary_byteLength (Word.run rest) back
      rwa [hb] at h
  | expression e bounded =>
      cases bounded with
      | false => simp [sliceOffsets] at ho
      | true =>
          obtain ⟨count, _, rfl⟩ := Option.map_eq_some_iff.mp (Option.mem_toList.mp ho)
          exact Text.isBoundary_take rest count

namespace Scanner

/-- All slices in a state of the scan of a text are taken between characters: that of the text at
the state's offset, those that matching a pattern takes, and that of the token which a match
gives. -/
structure SlicesBetweenCharacters (text : List Char) (s : Scanner) : Prop where
  offset : Text.IsBoundary text s.offset
  rest : text.utf8Encode.extract s.offset (Text.byteLength text) = s.rest.utf8Encode
  matching : ∀ p : Pattern, ∀ offset ∈ p.sliceOffsets s.rest, Text.IsBoundary s.rest offset
  expression : ∀ (e : Expression) (count : Nat), e.matchCount? s.rest = some count →
    count ≤ s.rest.length
  matched : ∀ (p : Pattern) (count : Nat), p.matchCount? s.rest = some count →
    0 < count ∧ count ≤ s.rest.length
  length : ∀ (p : Pattern) (length : Nat), p.matchLength? s.rest = some length →
    Text.IsBoundary s.rest length

theorem slicesBetweenCharacters_after (g : Grammar) (text : List Char) (count : Nat) :
    SlicesBetweenCharacters text (after g text count) := by
  have htrace := (trace_take_drop g text count).1
  have hrest : text = taken ((steps g text).take count) ++ (after g text count).rest :=
    htrace.rest_eq
  have hoffset : (after g text count).offset =
      0 + Text.byteLength (taken ((steps g text).take count)) := htrace.offset_eq
  rw [Nat.zero_add] at hoffset
  clear htrace
  generalize taken ((steps g text).take count) = front at hrest hoffset
  generalize after g text count = s at hrest hoffset
  subst hrest
  refine ⟨?_, ?_, fun p => p.isBoundary_sliceOffsets _,
    fun e n hn => e.matchCount?_le_length hn, ?_, ?_⟩
  · rw [hoffset]
    exact Text.isBoundary_byteLength _ _
  · have h := Text.extract_utf8Encode front s.rest []
    rwa [List.append_nil, ← Text.byteLength_append, ← hoffset] at h
  · intro p n hn
    exact ⟨Pattern.matchCount?_pos hn, Pattern.matchCount?_le_length hn⟩
  · intro p n hn
    obtain ⟨taken, _, rfl⟩ := Option.map_eq_some_iff.mp hn
    exact Text.isBoundary_take _ taken

/-- Scanning a text with any grammar, checked or not, goes through it from end to end. -/
theorem scan_tiles_text (g : Grammar) (text : List Char) :
    Token.Tiling text ((pieces g text).map Piece.token) ∧
      Token.Tiling text (Token.scan g text) ∧
      (∀ limit, (run g limit (start text)).length ≤ text.length) ∧
      ((start text).stateAfter (steps g text)).next? g = none ∧
      ∀ count, SlicesBetweenCharacters text (after g text count) := by
  obtain ⟨hpieces, hall⟩ := placed_pieces g text
  obtain ⟨htokens, hjoined⟩ := placed_scan g text
  refine ⟨?_, ?_, ?_, next?_eq_none.mpr (rest_steps_eq_nil g text),
    slicesBetweenCharacters_after g text⟩
  · have h := hpieces.tiling
    rwa [hall] at h
  · have h := htokens.tiling
    rwa [hjoined] at h
  · intro limit
    have h := (trace_run (g := g) limit (start text)).length_add_le
    exact Nat.le_trans (Nat.le_add_right _ _) h

end Scanner
end LiquidsoapHighlight
