import LiquidsoapHighlight.Proofs.Token.Placed
import LiquidsoapHighlight.Terminal.Listing

/-!
Dropping escape sequences. Of styled text, what is left is the text itself, if it had no escape
characters of its own.
-/

namespace LiquidsoapHighlight
namespace Terminal

/-- Drops the escape sequences of a text, and at first the rest of the one that it begins in. -/
def dropSequences : Bool → List Char → List Char
  | true, c :: rest => dropSequences (c ≠ 'm') rest
  | false, '\x1b' :: '[' :: rest => dropSequences true rest
  | false, c :: rest => c :: dropSequences false rest
  | _, [] => []

/-- The text without its escape sequences, each from a bracket after the escape character to the
next m. -/
def withoutSequences (text : List Char) : List Char := dropSequences false text

theorem withoutSequences_append {text : List Char} (h : '\x1b' ∉ text) (rest : List Char) :
    withoutSequences (text ++ rest) = text ++ withoutSequences rest := by
  induction text with
  | nil => rfl
  | cons c text ih =>
      obtain ⟨hc, htext⟩ := not_or.mp (mt List.mem_cons.mpr h)
      have hstep : withoutSequences (c :: (text ++ rest)) =
          c :: withoutSequences (text ++ rest) := by
        rw [withoutSequences, dropSequences]
        · rfl
        · rintro _ rfl
          exact absurd rfl hc
      rw [List.cons_append, hstep, ih htext, List.cons_append]

theorem dropSequences_parameters {parameters : List Char} (h : 'm' ∉ parameters)
    (rest : List Char) :
    dropSequences true (parameters ++ 'm' :: rest) = withoutSequences rest := by
  induction parameters with
  | nil => rfl
  | cons c parameters ih =>
      obtain ⟨hc, hparameters⟩ := not_or.mp (mt List.mem_cons.mpr h)
      rw [List.cons_append, dropSequences, decide_eq_true (Ne.symm hc), ih hparameters]

/-- Codes are written with digits, and signs between them. -/
theorem digit_or_sign_of_mem_codes {codes : List Nat} {c : Char}
    (h : c ∈ List.intercalate [';'] (codes.map Text.decimal)) : c.isDigit = true ∨ c = ';' := by
  have hdecimal : ∀ n, c ∈ Text.decimal n → c.isDigit = true :=
    fun n hc => Nat.isDigit_of_mem_toDigits (by decide) (by decide) hc
  induction codes with
  | nil => exact absurd h List.not_mem_nil
  | cons n codes ih =>
      cases codes with
      | nil => exact .inl (hdecimal n (by simpa using h))
      | cons k codes =>
          rw [List.map_cons, List.map_cons, List.intercalate_cons_cons, List.mem_append,
            List.mem_append, List.mem_singleton] at h
          obtain (hn | hsign) | hcodes := h
          · exact .inl (hdecimal n hn)
          · exact .inr hsign
          · exact ih hcodes

theorem not_mem_codes (codes : List Nat) :
    'm' ∉ List.intercalate [';'] (codes.map Text.decimal) :=
  fun h => (digit_or_sign_of_mem_codes h).elim nofun nofun

theorem withoutSequences_sequence (codes : List Nat) (rest : List Char) :
    withoutSequences (sequence codes ++ rest) = withoutSequences rest := by
  have hopen : "\x1b[".toList = ['\x1b', '['] := by decide
  have hsplit : sequence codes ++ rest =
      ['\x1b', '['] ++ (List.intercalate [';'] (codes.map Text.decimal) ++ 'm' :: rest) := by
    rw [← hopen, sequence]
    simp
  rw [hsplit]
  exact dropSequences_parameters (not_mem_codes codes) rest

theorem restyle_of_not_mem {text : List Char} (h : '\x1b' ∉ text) (opening : List Char) :
    restyle opening text = text := by
  induction text with
  | nil => rfl
  | cons c text ih =>
      obtain ⟨hc, htext⟩ := not_or.mp (mt List.mem_cons.mpr h)
      rw [restyle, ih htext]
      rintro _ rfl
      exact absurd rfl hc

theorem paint_eq {text : List Char} (h : '\x1b' ∉ text) (style : Style) :
    paint true style text =
      if style = .plain then text else sequence style.codes ++ text ++ clear := by
  by_cases hs : style = .plain <;> simp [paint, hs, restyle_of_not_mem h]

theorem withoutSequences_paint {text : List Char} (h : '\x1b' ∉ text) (style : Style)
    (rest : List Char) :
    withoutSequences (paint true style text ++ rest) = text ++ withoutSequences rest := by
  rw [paint_eq h]
  split
  · exact withoutSequences_append h rest
  · rw [clear, List.append_assoc, List.append_assoc, withoutSequences_sequence,
      withoutSequences_append h, withoutSequences_sequence]

theorem paintAll_cons (colors : Bool) (t : Token) (tokens : List Token) :
    paintAll colors (t :: tokens) = paint colors (theme t.kind) t.text ++ paintAll colors tokens :=
  List.flatMap_cons

/-- Without colors, tokens are shown as their text. -/
theorem paintAll_false (tokens : List Token) : paintAll false tokens = Token.texts tokens := rfl

/-- With colors, they are their text and escape sequences. -/
theorem withoutSequences_paintAll {tokens : List Token} (h : '\x1b' ∉ Token.texts tokens)
    (rest : List Char) :
    withoutSequences (paintAll true tokens ++ rest) =
      Token.texts tokens ++ withoutSequences rest := by
  induction tokens with
  | nil => rfl
  | cons t tokens ih =>
      rw [Token.texts_cons, List.mem_append, not_or] at h
      rw [paintAll_cons, List.append_assoc, withoutSequences_paint h.1, ih h.2, Token.texts_cons,
        List.append_assoc]

end Terminal
end LiquidsoapHighlight
