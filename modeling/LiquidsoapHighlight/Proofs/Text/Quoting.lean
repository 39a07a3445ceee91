import Mathlib.Data.List.Basic
import LiquidsoapHighlight.Text.Quoted

/-!
Reading quoted text back. Escapes are told from the characters that they look like, so every text
can be read from its quoted form; there are no control characters in this form.
-/

namespace LiquidsoapHighlight
namespace Text

/-- What comes next in quoted text: a character of the text, the rest of an escape, the brace before
a code, or more digits of the code whose first ones have this value. -/
inductive QuoteState where
  | character
  | escape
  | brace
  | code (value : Nat)
  deriving DecidableEq

/-- The character that a letter stands for after a backslash. -/
def ofEscape? : Char → Option Char
  | '"' => some '"'
  | '\\' => some '\\'
  | 't' => some '\t'
  | 'n' => some '\n'
  | 'r' => some '\r'
  | '0' => some '\x00'
  | _ => none

/-- Reads quoted text from its opening quote on, to the closing quote at its end. -/
def readQuoted? : QuoteState → List Char → Option (List Char)
  | _, [] => none
  | .character, c :: rest =>
    if c = '"' then if rest.isEmpty then some [] else none
    else if c = '\\' then readQuoted? .escape rest
    else (readQuoted? .character rest).map (c :: ·)
  | .escape, c :: rest =>
    if c = 'u' then readQuoted? .brace rest
    else (ofEscape? c).bind fun d => (readQuoted? .character rest).map (d :: ·)
  | .brace, c :: rest => if c = '{' then readQuoted? (.code 0) rest else none
  | .code n, c :: rest =>
    if c = '}' then
      if n.isValidChar then (readQuoted? .character rest).map (Char.ofNat n :: ·) else none
    else (digitValue? c).bind fun d => readQuoted? (.code (n * 16 + d)) rest

def unquote? : List Char → Option (List Char)
  | '"' :: rest => readQuoted? .character rest
  | _ => none

/-- The digits of a number are its last one and those of what is left without it. -/
theorem hexadecimal_eq (n : Nat) :
    hexadecimal n =
      if n < 16 then [n.digitChar] else hexadecimal (n / 16) ++ [(n % 16).digitChar] :=
  Nat.toDigits_eq_if (by decide)

theorem digitValue?_digitChar : ∀ d < 16, digitValue? d.digitChar = some d := by
  decide

theorem digitChar_ne_brace : ∀ d < 16, d.digitChar ≠ '}' := by
  decide

theorem readQuoted?_digitChar {d : Nat} (h : d < 16) (n : Nat) (rest : List Char) :
    readQuoted? (.code n) (d.digitChar :: rest) = readQuoted? (.code (n * 16 + d)) rest := by
  rw [readQuoted?, if_neg (digitChar_ne_brace d h), digitValue?_digitChar d h, Option.bind_some]

theorem readQuoted?_hexadecimal (n : Nat) (rest : List Char) :
    readQuoted? (.code 0) (hexadecimal n ++ rest) = readQuoted? (.code n) rest := by
  induction n using Nat.strongRecOn generalizing rest with
  | ind n ih =>
      rw [hexadecimal_eq]
      split
      · next hdigit =>
          rw [List.singleton_append, readQuoted?_digitChar hdigit, Nat.zero_mul, Nat.zero_add]
      · next hmore =>
          have hlast : n % 16 < 16 := Nat.mod_lt n (by decide)
          rw [List.append_assoc, ih (n / 16) (by omega), List.singleton_append,
            readQuoted?_digitChar hlast, Nat.div_add_mod']

theorem readQuoted?_codeEscape (c : Char) (rest : List Char) :
    readQuoted? .character (codeEscape c ++ rest) =
      (readQuoted? .character rest).map (c :: ·) := by
  have hopen : "\\u\x7b".toList = ['\\', 'u', '{'] := by decide
  have hvalid : c.toNat.isValidChar := c.valid
  rw [codeEscape, hopen, List.append_assoc, List.append_assoc]
  change readQuoted? (.code 0) (hexadecimal c.toNat ++ ('}' :: rest)) = _
  rw [readQuoted?_hexadecimal, readQuoted?, if_pos rfl, if_pos hvalid, Char.ofNat_toNat]

theorem readQuoted?_plain {c : Char} (hquote : c ≠ '"') (hbackslash : c ≠ '\\')
    (rest : List Char) :
    readQuoted? .character (c :: rest) = (readQuoted? .character rest).map (c :: ·) := by
  rw [readQuoted?, if_neg hquote, if_neg hbackslash]

/-- A quoted character is read as the character, whatever comes after it. -/
theorem readQuoted?_quoteChar (c : Char) (rest : List Char) :
    readQuoted? .character (quoteChar c ++ rest) =
      (readQuoted? .character rest).map (c :: ·) := by
  unfold quoteChar
  split
  case h_7 hquote hbackslash _ _ _ _ =>
    split
    · exact readQuoted?_plain hquote hbackslash rest
    · exact readQuoted?_codeEscape c rest
  all_goals rfl

theorem readQuoted?_body (text : List Char) :
    readQuoted? .character (text.flatMap quoteChar ++ ['"']) = some text := by
  induction text with
  | nil => rfl
  | cons c text ih =>
      rw [List.flatMap_cons, List.append_assoc, readQuoted?_quoteChar, ih, Option.map_some]

theorem unquote?_quote (text : List Char) : unquote? (quote text) = some text :=
  readQuoted?_body text

/-- The control characters of ASCII. -/
def isControl (c : Char) : Bool := c.toNat < 0x20 || c.toNat == 0x7f

theorem not_isControl_of_isPrintable {c : Char} (h : isPrintable c = true) :
    isControl c = false := by
  have hlow : (0x0, 0x1f) ∈ unprintables.ranges := List.mem_cons_self
  have hdelete : (0x7f, 0xa0) ∈ unprintables.ranges := List.mem_cons_of_mem _ List.mem_cons_self
  rw [isPrintable, Bool.not_eq_true', CodeRanges.contains, CodeRanges.containsCode,
    List.any_eq_false] at h
  have hnotLow := h _ hlow
  have hnotDelete := h _ hdelete
  simp only [Bool.and_eq_true, decide_eq_true_eq] at hnotLow hnotDelete
  simp only [isControl, Bool.or_eq_false_iff, decide_eq_false_iff_not, beq_eq_false_iff_ne]
  omega

theorem not_isControl_of_any {text : List Char} (h : text.any isControl = false) :
    ∀ c ∈ text, isControl c = false :=
  fun c hc => Bool.eq_false_iff.mpr (List.any_eq_false.mp h c hc)

theorem exists_digitChar {base n : Nat} (hbase : 1 < base) {c : Char}
    (h : c ∈ Nat.toDigits base n) : ∃ d < base, c = d.digitChar := by
  induction n using Nat.strongRecOn with
  | ind n ih =>
      rw [Nat.toDigits_eq_if hbase] at h
      split at h
      · next hdigit => exact ⟨n, hdigit, List.mem_singleton.mp h⟩
      · next hmore =>
          obtain hfront | hlast := List.mem_append.mp h
          · exact ih (n / base) (Nat.div_lt_self (by omega) hbase) hfront
          · exact ⟨n % base, Nat.mod_lt n (by omega), List.mem_singleton.mp hlast⟩

/-- Numbers are written without control characters. -/
theorem not_isControl_toDigits {base : Nat} (hbase : 1 < base) (hle : base ≤ 16) (n : Nat) :
    ∀ c ∈ Nat.toDigits base n, isControl c = false := by
  have hdigits : ∀ d < 16, isControl d.digitChar = false := by decide
  intro c hc
  obtain ⟨d, hd, rfl⟩ := exists_digitChar hbase hc
  exact hdigits d (Nat.lt_of_lt_of_le hd hle)

theorem not_isControl_codeEscape (c : Char) : ∀ d ∈ codeEscape c, isControl d = false := by
  have hsigns : ∀ d ∈ "\\u\x7b".toList, isControl d = false :=
    not_isControl_of_any (by decide)
  intro d hd
  rw [codeEscape, List.mem_append, List.mem_append] at hd
  obtain (hopen | hcode) | hclose := hd
  · exact hsigns d hopen
  · exact not_isControl_toDigits (by decide) (by decide) _ d hcode
  · obtain rfl := List.mem_singleton.mp hclose
    rfl

theorem not_isControl_quoteChar (c : Char) : ∀ d ∈ quoteChar c, isControl d = false := by
  unfold quoteChar
  split
  case h_7 =>
    split
    · next hshown =>
        intro d hd
        obtain rfl := List.mem_singleton.mp hd
        exact not_isControl_of_isPrintable (Bool.and_eq_true_iff.mp hshown).1
    · exact not_isControl_codeEscape c
  all_goals exact not_isControl_of_any (by decide)

theorem not_isControl_quote (text : List Char) : ∀ c ∈ quote text, isControl c = false := by
  intro c hc
  rw [quote, List.cons_append, List.mem_cons, List.mem_append, List.mem_flatMap] at hc
  obtain rfl | ⟨d, _, hd⟩ | hclose := hc
  · rfl
  · exact not_isControl_quoteChar d c hd
  · obtain rfl := List.mem_singleton.mp hclose
    rfl

end Text
end LiquidsoapHighlight
