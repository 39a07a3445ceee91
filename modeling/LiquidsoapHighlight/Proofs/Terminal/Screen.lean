import LiquidsoapHighlight.Liquidsoap.Grammar
import LiquidsoapHighlight.Proofs.Terminal.Sequences

/-!
What a terminal shows of styled text. It is fed one character after another; of a text without
escape characters it shows each token in the style of its kind, and no style is left over.
-/

namespace LiquidsoapHighlight
namespace Terminal

/-- The characters shown, each with the attributes that it is shown under, the attributes that are
set, and what has been read of a sequence that is not complete. Attributes are told by their
codes. -/
structure Screen where
  shown : List (Char × List Nat)
  attributes : List Nat
  held : List Char
  deriving DecidableEq

namespace Screen

def blank : Screen := ⟨[], [], []⟩

/-- The attributes after one more code, of which zero clears them. -/
def setAttribute (attributes : List Nat) (code : Nat) : List Nat :=
  if code = 0 then [] else attributes ++ [code]

/-- The codes between the bracket and the m of a sequence. -/
def readCodes (parameters : List Char) : List Nat :=
  (parameters.splitOn ';').map fun digits => Nat.ofDigitChars 10 digits 0

def isParameter (c : Char) : Bool := c.isDigit || c == ';'

/-- Shows what has been held back, which has turned out to be no sequence. -/
def release (s : Screen) : Screen :=
  ⟨s.shown ++ s.held.map (·, s.attributes), s.attributes, []⟩

/-- A character that does not belong to a sequence begun before it. -/
def begin (s : Screen) (c : Char) : Screen :=
  if c = '\x1b' then { s with held := [c] }
  else { s with shown := s.shown ++ [(c, s.attributes)] }

/-- Takes the next character. -/
def put (s : Screen) (c : Char) : Screen :=
  match s.held with
  | [] => s.begin c
  | [_] => if c = '[' then { s with held := s.held ++ [c] } else s.release.begin c
  | _ :: _ :: parameters =>
    if c = 'm' then ⟨s.shown, (readCodes parameters).foldl setAttribute s.attributes, []⟩
    else if isParameter c then { s with held := s.held ++ [c] }
    else s.release.begin c

def feed (s : Screen) (text : List Char) : Screen := text.foldl put s

variable {s : Screen} {text : List Char}

theorem feed_append (s : Screen) (text more : List Char) :
    s.feed (text ++ more) = (s.feed text).feed more :=
  List.foldl_append

theorem feed_cons (s : Screen) (c : Char) (text : List Char) :
    s.feed (c :: text) = (s.put c).feed text := rfl

/-- Text without escape characters is shown as it is, where no sequence has begun. -/
theorem feed_text (hesc : '\x1b' ∉ text) (shown : List (Char × List Nat)) (attributes : List Nat) :
    feed ⟨shown, attributes, []⟩ text =
      ⟨shown ++ text.map (·, attributes), attributes, []⟩ := by
  induction text generalizing shown with
  | nil => simp [feed]
  | cons c text ih =>
      obtain ⟨hc, htext⟩ := not_or.mp (mt List.mem_cons.mpr hesc)
      have hput : put ⟨shown, attributes, []⟩ c =
          ⟨shown ++ [(c, attributes)], attributes, []⟩ := by
        rw [put, begin, if_neg (Ne.symm hc)]
      rw [feed_cons, hput, ih htext, List.map_cons, List.append_assoc, List.singleton_append]

theorem feed_parameters {parameters : List Char} (h : ∀ c ∈ parameters, isParameter c = true)
    (shown : List (Char × List Nat)) (attributes : List Nat) (before : List Char) :
    feed ⟨shown, attributes, '\x1b' :: '[' :: before⟩ parameters =
      ⟨shown, attributes, '\x1b' :: '[' :: (before ++ parameters)⟩ := by
  induction parameters generalizing before with
  | nil => simp [feed]
  | cons c parameters ih =>
      obtain ⟨hc, hparameters⟩ := List.forall_mem_cons.mp h
      have hm : c ≠ 'm' := by
        rintro rfl
        cases hc
      have hput : put ⟨shown, attributes, '\x1b' :: '[' :: before⟩ c =
          ⟨shown, attributes, '\x1b' :: '[' :: (before ++ [c])⟩ := by
        simp [put, hm, hc]
      rw [feed_cons, hput, ih hparameters, List.append_assoc, List.singleton_append]

theorem readCodes_intercalate {codes : List Nat} (hne : codes ≠ []) :
    readCodes (List.intercalate [';'] (codes.map Text.decimal)) = codes := by
  have hsign : ∀ digits ∈ codes.map Text.decimal, ';' ∉ digits := by
    intro digits hdigits hmem
    obtain ⟨n, _, rfl⟩ := List.mem_map.mp hdigits
    cases Nat.isDigit_of_mem_toDigits (by decide) (by decide) hmem
  have hread : ((fun digits => Nat.ofDigitChars 10 digits 0) ∘ Text.decimal) = id :=
    funext fun _ => Nat.ofDigitChars_ten_toDigits
  rw [readCodes, List.splitOn_intercalate ';' hsign (mt List.map_eq_nil_iff.mp hne), List.map_map,
    hread, List.map_id]

/-- A sequence sets its codes one after another, and shows nothing. -/
theorem feed_sequence {codes : List Nat} (hne : codes ≠ []) (shown : List (Char × List Nat))
    (attributes : List Nat) :
    feed ⟨shown, attributes, []⟩ (sequence codes) =
      ⟨shown, codes.foldl setAttribute attributes, []⟩ := by
  have hopen : "\x1b[".toList = ['\x1b', '['] := by decide
  have hparameters : ∀ c ∈ List.intercalate [';'] (codes.map Text.decimal),
      isParameter c = true := by
    intro c hc
    simpa [isParameter] using digit_or_sign_of_mem_codes hc
  rw [sequence, hopen, feed_append, feed_append]
  change feed (feed ⟨shown, attributes, ['\x1b', '[']⟩ _) ['m'] = _
  rw [feed_parameters hparameters, List.nil_append]
  change Screen.mk shown ((readCodes _).foldl setAttribute attributes) [] = _
  rw [readCodes_intercalate hne]

theorem feed_clear (shown : List (Char × List Nat)) (attributes : List Nat) :
    feed ⟨shown, attributes, []⟩ clear = ⟨shown, [], []⟩ :=
  feed_sequence (List.cons_ne_nil 0 []) shown attributes

theorem foldl_setAttribute {codes : List Nat} (h : 0 ∉ codes) (attributes : List Nat) :
    codes.foldl setAttribute attributes = attributes ++ codes := by
  induction codes generalizing attributes with
  | nil => exact (List.append_nil attributes).symm
  | cons code codes ih =>
      obtain ⟨hcode, hcodes⟩ := not_or.mp (mt List.mem_cons.mpr h)
      rw [List.foldl_cons, setAttribute, if_neg (Ne.symm hcode), ih hcodes, List.append_assoc,
        List.singleton_append]

end Screen

namespace Style

theorem codes_eq_nil {style : Style} : style.codes = [] ↔ style = .plain := by
  obtain ⟨attributes, color⟩ := style
  simp [codes, plain]

/-- The code that clears all attributes belongs to no style. -/
theorem zero_not_mem_codes (style : Style) : 0 ∉ style.codes := by
  intro hzero
  obtain hattributes | hcolor := List.mem_append.mp hzero
  · obtain ⟨a, _, hcode⟩ := List.mem_map.mp hattributes
    cases a <;> cases hcode
  · obtain ⟨color, _, hcode⟩ := List.mem_map.mp hcolor
    cases color <;> cases hcode

end Style

namespace Screen
variable {text : List Char}

/-- Painted text is shown in its style, and the style ends with it. -/
theorem feed_paint (hesc : '\x1b' ∉ text) (style : Style) (shown : List (Char × List Nat)) :
    feed ⟨shown, [], []⟩ (paint true style text) =
      ⟨shown ++ text.map (·, style.codes), [], []⟩ := by
  rw [paint_eq hesc]
  split
  · next hplain =>
      subst hplain
      exact feed_text hesc shown []
  · next hstyle =>
      have hcodes : style.codes ≠ [] := mt Style.codes_eq_nil.mp hstyle
      rw [feed_append, feed_append, feed_sequence hcodes,
        foldl_setAttribute style.zero_not_mem_codes, List.nil_append, feed_text hesc, feed_clear]

/-- The characters of a token, each with the attributes of the token's kind. -/
def styled (t : Token) : List (Char × List Nat) := t.text.map (·, (theme t.kind).codes)

theorem map_fst_styled (tokens : List Token) :
    (tokens.flatMap styled).map Prod.fst = Token.texts tokens := by
  rw [List.map_flatMap, Token.texts]
  refine List.flatMap_congr fun t _ => ?_
  rw [styled, List.map_map]
  exact List.map_id _

theorem feed_paintAll {tokens : List Token} (hesc : '\x1b' ∉ Token.texts tokens)
    (shown : List (Char × List Nat)) :
    feed ⟨shown, [], []⟩ (paintAll true tokens) =
      ⟨shown ++ tokens.flatMap styled, [], []⟩ := by
  induction tokens generalizing shown with
  | nil => simp [paintAll, feed]
  | cons t tokens ih =>
      rw [Token.texts_cons, List.mem_append, not_or] at hesc
      rw [paintAll_cons, feed_append, feed_paint hesc.1, ih hesc.2, List.flatMap_cons,
        List.append_assoc]
      rfl

end Screen

theorem theme_codes_eq_nil {kind : TokenKind} :
    (theme kind).codes = [] ↔ kind ∈ [.identifier, .punctuation, .plain] := by
  cases kind <;> decide

/-- Of a script without escape characters, a terminal shows each character under the attributes of
its token's kind, which for some kinds are none, and then has no attribute set. Without colors it is
given the script itself. -/
theorem styles_stay_in_tokens (text : List Char) :
    ('\x1b' ∉ text →
      Screen.blank.feed (paintAll true (Token.scan Liquidsoap.grammar text)) =
          ⟨(Token.scan Liquidsoap.grammar text).flatMap Screen.styled, [], []⟩ ∧
        ((Token.scan Liquidsoap.grammar text).flatMap Screen.styled).map Prod.fst = text) ∧
      (∀ kind, (theme kind).codes = [] ↔ kind ∈ [.identifier, .punctuation, .plain]) ∧
      paintAll false (Token.scan Liquidsoap.grammar text) = text := by
  have htexts := (Scanner.placed_scan Liquidsoap.grammar text).2
  refine ⟨fun hesc => ⟨?_, ?_⟩, fun _ => theme_codes_eq_nil, ?_⟩
  · rw [← htexts] at hesc
    exact Screen.feed_paintAll hesc []
  · rw [Screen.map_fst_styled, htexts]
  · rw [paintAll_false, htexts]

theorem definition_shown_in_styles :
    '\x1b' ∉ "def x".toList ∧
      Screen.blank.feed (paintAll true (Token.scan Liquidsoap.grammar "def x".toList)) =
        ⟨[('d', [1, 35]), ('e', [1, 35]), ('f', [1, 35]), (' ', []), ('x', [])], [], []⟩ :=
  have hesc : '\x1b' ∉ "def x".toList := by decide
  ⟨hesc, ((styles_stay_in_tokens _).1 hesc).1.trans (by decide +kernel)⟩

end Terminal
end LiquidsoapHighlight
