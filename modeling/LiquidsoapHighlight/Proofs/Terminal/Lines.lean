import LiquidsoapHighlight.Proofs.Text.Quoting
import LiquidsoapHighlight.Terminal.Listing

/-!
Reading the lines of a listing back. The columns of a line can be told apart however wide they are,
and the quoted text is what is left after them; so a line says all of its token.
-/

namespace LiquidsoapHighlight
namespace Terminal

/-- What a line says of a token. -/
structure Listed where
  start : Nat
  stop : Nat
  kind : TokenKind
  text : List Char
  deriving DecidableEq

def Listed.of (t : Token) : Listed := ⟨t.start, t.stop, t.kind, t.text⟩

/-- A number at the start of a text, and the rest of the text. -/
def readNumber (text : List Char) : Nat × List Char :=
  (Nat.ofDigitChars 10 (text.takeWhile Char.isDigit) 0, text.dropWhile Char.isDigit)

def skipBlanks (text : List Char) : List Char := text.dropWhile (· == ' ')

def ofColumn? (column : List Char) : Option TokenKind :=
  TokenKind.all.find? fun kind => kindColumn kind == column

/-- The kind in a column of its own, and the text that is quoted after it. -/
def readKind? (text : List Char) : Option (TokenKind × List Char) :=
  match ofColumn? (text.take 24), text.drop 24 with
  | some kind, ' ' :: quoted => (Text.unquote? quoted).map (kind, ·)
  | _, _ => none

/-- Reads a line without colors. -/
def readLine? (line : List Char) : Option Listed :=
  let (start, rest) := readNumber (skipBlanks line)
  match rest with
  | '.' :: '.' :: rest =>
    let (stop, rest) := readNumber rest
    (readKind? (skipBlanks rest)).map fun (kind, text) => ⟨start, stop, kind, text⟩
  | _ => none

theorem readNumber_decimal (n : Nat) {rest : List Char}
    (h : ∀ c ∈ rest.head?, c.isDigit = false) :
    readNumber (Text.decimal n ++ rest) = (n, rest) := by
  have hdigits : ∀ c ∈ Text.decimal n, c.isDigit = true :=
    fun c hc => Nat.isDigit_of_mem_toDigits (by decide) (by decide) hc
  have hnone : rest.takeWhile Char.isDigit = [] ∧ rest.dropWhile Char.isDigit = rest := by
    cases rest with
    | nil => exact ⟨rfl, rfl⟩
    | cons c rest => simp [h c rfl]
  rw [readNumber, List.takeWhile_append_of_pos hdigits, List.dropWhile_append_of_pos hdigits,
    hnone.1, hnone.2, List.append_nil, Text.decimal, Nat.ofDigitChars_ten_toDigits]

theorem skipBlanks_replicate (n : Nat) {rest : List Char} (h : ∀ c ∈ rest.head?, c ≠ ' ') :
    skipBlanks (List.replicate n ' ' ++ rest) = rest := by
  have hblanks : ∀ c ∈ List.replicate n ' ', (c == ' ') = true :=
    fun c hc => beq_iff_eq.mpr (List.eq_of_mem_replicate hc)
  rw [skipBlanks, List.dropWhile_append_of_pos hblanks]
  cases rest with
  | nil => rfl
  | cons c rest => exact List.dropWhile_cons_of_neg (by simpa using h c rfl)

theorem head?_decimal (n : Nat) (rest : List Char) :
    ∀ c ∈ (Text.decimal n ++ rest).head?, c ≠ ' ' := by
  have hne : Text.decimal n ≠ [] := Nat.toDigits_ne_nil
  rintro c hc rfl
  rw [List.head?_append_of_ne_nil _ hne] at hc
  cases Nat.isDigit_of_mem_toDigits (by decide) (by decide) (List.mem_of_mem_head? hc)

theorem length_kindColumn (kind : TokenKind) : (kindColumn kind).length = 24 := by
  cases kind <;> decide

theorem head?_kindColumn (kind : TokenKind) (rest : List Char) :
    ∀ c ∈ (kindColumn kind ++ rest).head?, c ≠ ' ' := by
  have hname : (kindColumn kind).head? ≠ some ' ' := by cases kind <;> decide
  have hne : kindColumn kind ≠ [] := List.ne_nil_of_length_eq_add_one (length_kindColumn kind)
  rintro c hc rfl
  rw [List.head?_append_of_ne_nil _ hne] at hc
  exact hname hc

/-- The names of the kinds differ, and so do their columns. -/
theorem ofColumn?_kindColumn (kind : TokenKind) : ofColumn? (kindColumn kind) = some kind := by
  cases kind <;> decide

theorem readKind?_column (kind : TokenKind) (text : List Char) :
    readKind? (kindColumn kind ++ ' ' :: Text.quote text) = some (kind, text) := by
  have hlength := length_kindColumn kind
  rw [readKind?, List.take_left' hlength, List.drop_left' hlength, ofColumn?_kindColumn]
  change (Text.unquote? (Text.quote text)).map (kind, ·) = _
  rw [Text.unquote?_quote, Option.map_some]

/-- The columns of a line, and the blanks before and between them. -/
theorem tokenLine_eq (t : Token) :
    ∃ before after, tokenLine false t =
      List.replicate before ' ' ++ (Text.decimal t.start ++ ('.' :: '.' ::
        (Text.decimal t.stop ++ (List.replicate (after + 1) ' ' ++
          (kindColumn t.kind ++ ' ' :: Text.quote t.text))))) := by
  have hdots : "..".toList = ['.', '.'] := by decide
  refine ⟨6 - (Text.decimal t.start).length, 6 - (Text.decimal t.stop).length, ?_⟩
  rw [tokenLine, List.leftpad, List.rightpad, List.replicate_succ', hdots]
  simp only [paint, Bool.false_and, Bool.false_eq_true, if_false, List.append_assoc,
    List.cons_append, List.nil_append]

theorem readLine?_tokenLine (t : Token) : readLine? (tokenLine false t) = some (.of t) := by
  obtain ⟨before, after, hline⟩ := tokenLine_eq t
  have hdot (rest : List Char) : ∀ c ∈ ('.' :: rest).head?, c.isDigit = false := by
    rintro c ⟨⟩
    rfl
  have hblank (rest : List Char) :
      ∀ c ∈ (List.replicate (after + 1) ' ' ++ rest).head?, c.isDigit = false := by
    rintro c ⟨⟩
    rfl
  simp only [readLine?, hline, skipBlanks_replicate before (head?_decimal _ _),
    readNumber_decimal t.start (hdot _), readNumber_decimal t.stop (hblank _),
    skipBlanks_replicate (after + 1) (head?_kindColumn _ _), readKind?_column, Option.map_some]
  rfl

/-- A line has no control characters, a line break among them. -/
theorem not_isControl_tokenLine (t : Token) :
    ∀ c ∈ tokenLine false t, Text.isControl c = false := by
  obtain ⟨before, after, hline⟩ := tokenLine_eq t
  have hdecimal (n : Nat) : ∀ c ∈ Text.decimal n, Text.isControl c = false :=
    Text.not_isControl_toDigits (by decide) (by decide) n
  have hblanks (n : Nat) : ∀ c ∈ List.replicate n ' ', Text.isControl c = false :=
    fun c hc => (List.eq_of_mem_replicate hc).symm ▸ rfl
  have hcolumn : (kindColumn t.kind).any Text.isControl = false := by
    cases t.kind <;> decide
  rw [hline]
  simp only [List.forall_mem_append, List.forall_mem_cons]
  exact ⟨hblanks before, hdecimal t.start, rfl, rfl, hdecimal t.stop, hblanks (after + 1),
    Text.not_isControl_of_any hcolumn, rfl, Text.not_isControl_quote t.text⟩

end Terminal
end LiquidsoapHighlight
