import LiquidsoapHighlight.Proofs.Liquidsoap.MaximalMunch
import LiquidsoapHighlight.Proofs.Regex.Repetition

/-!
What is scanned where a digit stands. If all of the digits, letters and underscores there make up a
duration, they are one token; otherwise the token is the longest number that the text starts with.
Both are given by grammars of their own, apart from the expressions that match them.
-/

namespace LiquidsoapHighlight
namespace Liquidsoap

open Grammar (firstMatch?)

def timeUnits : List (List Char) :=
  ["ms", "w", "d", "h", "m", "s"].map String.toList

/-- A number of one unit of time. -/
structure DurationPart where
  digits : List Char
  unit : List Char
  digits_ne_nil : digits ≠ []
  isDigit : ∀ c ∈ digits, c.isDigit = true
  unit_mem : unit ∈ timeUnits

namespace DurationPart

def text (part : DurationPart) : List Char := part.digits ++ part.unit

theorem unit_spelling : ∀ unit ∈ timeUnits,
    unit ≠ [] ∧ unit.all (fun c => !c.isDigit) = true := by
  decide

theorem takeWhile_isDigit (part : DurationPart) (rest : List Char) :
    (part.text ++ rest).takeWhile Char.isDigit = part.digits := by
  obtain ⟨hne, hunit⟩ := unit_spelling part.unit part.unit_mem
  obtain ⟨c, unit, hcons⟩ := List.exists_cons_of_ne_nil hne
  rw [text, List.append_assoc, Text.takeWhile_append_of_stop part.isDigit]
  rw [hcons, List.all_cons, Bool.and_eq_true, Bool.not_eq_true'] at hunit
  rw [hcons]
  exact hunit.1

/-- What comes after a part, which is another one or nothing, does not go on with its unit. -/
theorem stops_unit (parts : List DurationPart) :
    (parts.flatMap text).head?.any (fun c => !c.isDigit) = false := by
  cases parts with
  | nil => rfl
  | cons part parts =>
      obtain ⟨c, digits, hcons⟩ := List.exists_cons_of_ne_nil part.digits_ne_nil
      have hc := part.isDigit c (hcons ▸ List.mem_cons_self)
      simp [List.flatMap_cons, text, hcons, hc]

theorem takeWhile_unit (part : DurationPart) (parts : List DurationPart) :
    (part.unit ++ parts.flatMap text).takeWhile (fun c => !c.isDigit) = part.unit := by
  refine Text.takeWhile_append_of_stop ?_ (stops_unit parts)
  exact List.all_eq_true.mp (unit_spelling part.unit part.unit_mem).2

theorem text_ne_nil (part : DurationPart) : part.text ≠ [] :=
  List.append_ne_nil_of_left_ne_nil part.digits_ne_nil _

/-- A text is divided into parts in one way at most. -/
theorem flatMap_text_injective {parts others : List DurationPart}
    (h : parts.flatMap text = others.flatMap text) : parts = others := by
  induction parts generalizing others with
  | nil =>
      cases others with
      | nil => rfl
      | cons other others =>
          rw [List.flatMap_nil, List.flatMap_cons] at h
          exact absurd (List.append_eq_nil_iff.mp h.symm).1 other.text_ne_nil
  | cons part parts ih =>
      cases others with
      | nil =>
          rw [List.flatMap_nil, List.flatMap_cons] at h
          exact absurd (List.append_eq_nil_iff.mp h).1 part.text_ne_nil
      | cons other others =>
          rw [List.flatMap_cons, List.flatMap_cons] at h
          have hdigits : part.digits = other.digits := by
            rw [← part.takeWhile_isDigit, h, other.takeWhile_isDigit]
          rw [text, text, hdigits, List.append_assoc, List.append_assoc,
            List.append_right_inj] at h
          have hunit : part.unit = other.unit := by
            rw [← part.takeWhile_unit parts, h, other.takeWhile_unit]
          rw [hunit, List.append_right_inj] at h
          have hpart : part = other := by
            cases part
            cases other
            obtain rfl := hdigits
            obtain rfl := hunit
            rfl
          rw [hpart, ih h]

end DurationPart

/-- One or more numbers of units of time, one right after the other. -/
def IsDuration (w : List Char) : Prop :=
  ∃ parts : List DurationPart, parts ≠ [] ∧ parts.flatMap DurationPart.text = w

theorem IsDuration.existsUnique {w : List Char} (h : IsDuration w) :
    ∃! parts : List DurationPart, parts.flatMap DurationPart.text = w := by
  obtain ⟨parts, _, rfl⟩ := h
  exact ⟨parts, rfl, fun _ ho => DurationPart.flatMap_text_injective ho⟩

/-- The digits of a base, and the letters that name it. -/
structure Base where
  letters : List Char
  isDigit : Char → Bool

namespace Base

def hexadecimal : Base :=
  ⟨['x', 'X'], fun c => c.isDigit || 'a' ≤ c && c ≤ 'f' || 'A' ≤ c && c ≤ 'F'⟩

def octal : Base := ⟨['o', 'O'], fun c => '0' ≤ c && c ≤ '7'⟩

def binary : Base := ⟨['b', 'B'], fun c => '0' ≤ c && c ≤ '1'⟩

def all : List Base := [hexadecimal, octal, binary]

/-- A zero, a letter, a digit of the base, and further digits or underscores. -/
inductive IsLiteral (b : Base) : List Char → Prop where
  | intro {letter first : Char} {more : List Char} : letter ∈ b.letters →
      b.isDigit first = true → (∀ c ∈ more, b.isDigit c = true ∨ c = '_') →
      IsLiteral b ('0' :: letter :: first :: more)

end Base

/-- A digit, and further digits or underscores. -/
inductive IsInteger : List Char → Prop where
  | intro {first : Char} {more : List Char} : first.isDigit = true →
      (∀ c ∈ more, c.isDigit = true ∨ c = '_') → IsInteger (first :: more)

/-- A letter, perhaps a sign, and one or more digits. -/
inductive IsExponent : List Char → Prop where
  | intro {letter : Char} {sign digits : List Char} : letter ∈ ['e', 'E'] →
      sign ∈ [[], ['+'], ['-']] → digits ≠ [] → (∀ c ∈ digits, c.isDigit = true) →
      IsExponent (letter :: (sign ++ digits))

inductive IsFloat : List Char → Prop where
  | point {whole fraction exponent : List Char} : IsInteger whole →
      (∀ c ∈ fraction, c.isDigit = true ∨ c = '_') → exponent = [] ∨ IsExponent exponent →
      IsFloat (whole ++ '.' :: (fraction ++ exponent))
  | exponent {whole exponent : List Char} : IsInteger whole → IsExponent exponent →
      IsFloat (whole ++ exponent)

inductive IsNumber : List Char → Prop where
  | radix {w : List Char} {b : Base} : b ∈ Base.all → b.IsLiteral w → IsNumber w
  | float {w : List Char} : IsFloat w → IsNumber w
  | integer {w : List Char} : IsInteger w → IsNumber w

section Words

open Regex

theorem isDigit_iff (c : Char) : c.isDigit = true ↔ '0' ≤ c ∧ c ≤ '9' := by
  simp [Char.isDigit, Char.le_def]

theorem contains_digit (c : Char) : digit.contains c = c.isDigit := by
  rw [Bool.eq_iff_iff, digit, CharClass.contains_ofRanges]
  simp [isDigit_iff]

theorem contains_digitOrUnderscore (c : Char) :
    digitOrUnderscore.contains c = true ↔ c.isDigit = true ∨ c = '_' := by
  rw [digitOrUnderscore, CharClass.contains_ofRanges]
  simp [isDigit_iff, CharClass.between_self]

theorem mem_words_durationUnit {w : List Char} : w ∈ durationUnit.words ↔ w ∈ timeUnits := by
  rw [durationUnit, mem_words_choice]
  simp [timeUnits, mem_words_text, mem_words_char]

theorem mem_words_duration {w : List Char} : w ∈ duration.regex.words ↔ IsDuration w := by
  refine mem_words_plus_of_text fun u => ?_
  constructor
  · intro hu
    obtain ⟨digits, hdigits, unit, hunit, rfl⟩ := Language.mem_mul.mp hu
    obtain ⟨hne, hall⟩ := mem_words_plus_oneOf.mp hdigits
    simp only [contains_digit] at hall
    exact ⟨⟨digits, unit, hne, hall, mem_words_durationUnit.mp hunit⟩, rfl⟩
  · rintro ⟨part, rfl⟩
    refine Language.append_mem_mul (mem_words_plus_oneOf.mpr ⟨part.digits_ne_nil, ?_⟩)
      (mem_words_durationUnit.mpr part.unit_mem)
    simpa only [contains_digit] using part.isDigit

/-- The spelling of a base's literals by classes. -/
theorem mem_words_radix {b : Base} {letters : List Char} {first further : CharClass}
    (hletters : letters ⊆ b.letters ∧ b.letters ⊆ letters)
    (hfirst : ∀ c, first.contains c = b.isDigit c)
    (hfurther : ∀ c, further.contains c = true ↔ b.isDigit c = true ∨ c = '_') {w : List Char} :
    w ∈ (radix letters first further).words ↔ b.IsLiteral w := by
  simp only [radix, Regex.sequence, mem_words_seq_char, mem_words_seq_oneOf,
    mem_words_star_oneOf_iff, CharClass.contains_ofChars, hfirst, hfurther]
  constructor
  · rintro ⟨_, ⟨letter, _, hl, ⟨c, more, hc, hmore, rfl⟩, rfl⟩, rfl⟩
    exact .intro (hletters.1 hl) hc hmore
  · rintro ⟨hl, hc, hmore⟩
    exact ⟨_, ⟨_, _, hletters.2 hl, ⟨_, _, hc, hmore, rfl⟩, rfl⟩, rfl⟩

theorem mem_words_hexNumber {w : List Char} :
    w ∈ hexNumber.regex.words ↔ Base.hexadecimal.IsLiteral w := by
  refine mem_words_radix (by decide) (fun c => ?_) (fun c => ?_)
  · rw [Bool.eq_iff_iff, CharClass.contains_ofRanges]
    simp [Base.hexadecimal, isDigit_iff]
    tauto
  · rw [CharClass.contains_ofRanges]
    simp [Base.hexadecimal, isDigit_iff, CharClass.between_self]
    tauto

theorem mem_words_octalNumber {w : List Char} :
    w ∈ octalNumber.regex.words ↔ Base.octal.IsLiteral w := by
  refine mem_words_radix (by decide) (fun c => ?_) (fun c => ?_)
  · rw [Bool.eq_iff_iff, CharClass.contains_ofRanges]
    simp [Base.octal]
  · rw [CharClass.contains_ofRanges]
    simp [Base.octal, CharClass.between_self]

theorem mem_words_binaryNumber {w : List Char} :
    w ∈ binaryNumber.regex.words ↔ Base.binary.IsLiteral w := by
  refine mem_words_radix (by decide) (fun c => ?_) (fun c => ?_)
  · rw [Bool.eq_iff_iff, CharClass.contains_ofRanges]
    simp [Base.binary]
  · rw [CharClass.contains_ofRanges]
    simp [Base.binary, CharClass.between_self]

theorem mem_words_integer {w : List Char} : w ∈ integer.words ↔ IsInteger w := by
  simp only [integer, mem_words_seq_oneOf, mem_words_star_oneOf_iff, contains_digit,
    contains_digitOrUnderscore]
  constructor
  · rintro ⟨c, more, hc, hmore, rfl⟩
    exact .intro hc hmore
  · rintro ⟨hc, hmore⟩
    exact ⟨_, _, hc, hmore, rfl⟩

theorem mem_words_sign {w : List Char} :
    w ∈ (opt (oneOf (.ofChars ['+', '-']))).words ↔ w ∈ [[], ['+'], ['-']] := by
  constructor
  · rintro (hnil | ⟨c, hc, rfl⟩)
    · exact List.mem_cons.mpr (.inl hnil)
    · simpa [CharClass.contains_ofChars] using hc
  · intro hw
    rcases List.mem_cons.mp hw with rfl | hsign
    · exact .inl rfl
    · refine .inr ?_
      simp only [List.mem_cons, List.not_mem_nil, or_false] at hsign
      rcases hsign with rfl | rfl
      · exact ⟨'+', rfl, rfl⟩
      · exact ⟨'-', rfl, rfl⟩

theorem mem_words_exponent {w : List Char} : w ∈ exponent.words ↔ IsExponent w := by
  simp only [exponent, Regex.sequence, mem_words_seq_oneOf, CharClass.contains_ofChars]
  constructor
  · rintro ⟨letter, _, hl, hrest, rfl⟩
    obtain ⟨sign, hsign, digits, hdigits, rfl⟩ := Language.mem_mul.mp hrest
    obtain ⟨hne, hall⟩ := mem_words_plus_oneOf.mp hdigits
    simp only [contains_digit] at hall
    exact .intro (by simpa [or_comm] using hl) (mem_words_sign.mp hsign) hne hall
  · rintro ⟨hl, hsign, hne, hall⟩
    refine ⟨_, _, by simpa [or_comm] using hl, ?_, rfl⟩
    refine Language.append_mem_mul (mem_words_sign.mpr hsign) (mem_words_plus_oneOf.mpr ⟨hne, ?_⟩)
    simpa only [contains_digit] using hall

theorem mem_words_floatNumber {w : List Char} : w ∈ floatNumber.regex.words ↔ IsFloat w := by
  have hwhole : floatNumber.regex.words = integer.words *
      (alt (sequence [char '.', star (oneOf digitOrUnderscore), opt exponent]) exponent).words :=
    (mul_assoc _ _ _).symm
  rw [hwhole, Language.mem_mul]
  constructor
  · rintro ⟨whole, hint, rest, hrest, rfl⟩
    rw [mem_words_integer] at hint
    cases hrest with
    | inl hpoint =>
        obtain ⟨rest, hrest, rfl⟩ := mem_words_seq_char.mp hpoint
        obtain ⟨fraction, hfraction, e, he, rfl⟩ := Language.mem_mul.mp hrest
        simp only [mem_words_star_oneOf_iff, contains_digitOrUnderscore] at hfraction
        exact .point hint hfraction (he.imp_right mem_words_exponent.mp)
    | inr he => exact .exponent hint (mem_words_exponent.mp he)
  · intro h
    cases h with
    | point hint hfraction he =>
        refine ⟨_, mem_words_integer.mpr hint, _, .inl (mem_words_seq_char.mpr ⟨_, ?_, rfl⟩), rfl⟩
        refine Language.append_mem_mul (mem_words_star_oneOf ?_)
          (he.imp_right mem_words_exponent.mpr)
        simpa only [contains_digitOrUnderscore] using hfraction
    | exponent hint he =>
        exact ⟨_, mem_words_integer.mpr hint, _, .inr (mem_words_exponent.mpr he), rfl⟩

end Words

def durationRule : Rule := ⟨"duration", .expression duration true, .duration, .stay⟩

/-- The expressions for numbers, with the names of their rules. -/
def numbers : List (String × WrittenRegex) :=
  [("hex", hexNumber), ("octal", octalNumber), ("binary", binaryNumber), ("float", floatNumber),
    ("integer", integerNumber)]

def numberRules : List Rule :=
  numbers.map fun number => ⟨number.1, .expression number.2 false, .number, .stay⟩

theorem isNumber_iff {w : List Char} :
    IsNumber w ↔ ∃ number ∈ numbers, w ∈ number.2.regex.words := by
  have hinteger : w ∈ integerNumber.regex.words ↔ IsInteger w := mem_words_integer
  simp only [numbers, List.exists_mem_cons_iff, mem_words_hexNumber, mem_words_octalNumber,
    mem_words_binaryNumber, mem_words_floatNumber, hinteger]
  constructor
  · intro h
    cases h with
    | @radix b hb hw =>
        simp only [Base.all, List.mem_cons, List.not_mem_nil, or_false] at hb
        rcases hb with rfl | rfl | rfl <;> simp [hw]
    | float hw => simp [hw]
    | integer hw => simp [hw]
  · rintro (hw | hw | hw | hw | hw | hw)
    · exact .radix (by simp [Base.all]) hw
    · exact .radix (by simp [Base.all]) hw
    · exact .radix (by simp [Base.all]) hw
    · exact .float hw
    · exact .integer hw
    · simp at hw

theorem takesLongest_duration : duration.takesLongest = true := by
  decide +kernel

theorem takesLongest_numbers : ∀ number ∈ numbers, number.2.takesLongest = true := by
  decide +kernel

/-- The rule for durations takes the whole run of word characters, if that is a duration. -/
theorem matchCount?_durationRule {text : List Char} {n : Nat} :
    durationRule.pattern.matchCount? text = some n ↔
      IsDuration (text.takeWhile Word.isContinue) ∧
        n = (text.takeWhile Word.isContinue).length := by
  rw [← mem_words_duration]
  exact Pattern.matchCount?_bounded takesLongest_duration (by decide +kernel)

/-- The rules for what starts with a digit come one after the other, and none before them matches
there. -/
theorem exists_rules_eq_numerals {mode : Mode} (h : mode.scansExpressions = true) :
    ∃ front back, rules mode = front ++ durationRule :: (numberRules ++ back) ∧
      ∀ rule ∈ front, rule.pattern.startsApart digit = true := by
  refine ⟨(rules mode).take ((rules mode).length - 10), topLevelRules.drop 17, ?_⟩
  cases mode with
  | topLevel | doubleInterpolation | singleInterpolation | braces =>
      exact ⟨rfl, by decide +kernel⟩
  | lineComment | blockComment | doubleString | singleString | annotationBlock => cases h

/-- An expression is scanned at the state, and a digit stands there. -/
def AtDigit (s : Scanner) : Prop :=
  s.stack.top.mode.scansExpressions = true ∧ s.rest.head?.any Char.isDigit = true

/-- The piece is the numeral at the state. -/
structure TakesNumeral (s : Scanner) (p : Piece) : Prop where
  duration_iff : p.token.kind = .duration ↔ IsDuration (s.rest.takeWhile Word.isContinue)
  duration : IsDuration (s.rest.takeWhile Word.isContinue) →
    p.token.text = s.rest.takeWhile Word.isContinue ∧
      ∃! parts : List DurationPart, parts.flatMap DurationPart.text = p.token.text
  number : ¬ IsDuration (s.rest.takeWhile Word.isContinue) →
    p.token.kind = .number ∧ LongestWord {w | IsNumber w} s.rest p.token.text

theorem exists_number {number : String × WrittenRegex} (h : number ∈ numbers) {w text : List Char}
    (hw : w ∈ number.2.regex.words) (htext : w <+: text) :
    ∃ rule ∈ numberRules, ∃ n, rule.pattern.matchCount? text = some n ∧ w.length ≤ n := by
  obtain ⟨n, hn, hle⟩ := Pattern.exists_le_matchCount? (takesLongest_numbers number h) hw htext
  exact ⟨_, List.mem_map_of_mem h, n, hn, hle⟩

/-- Where a digit stands, one of the rules for numbers matches. -/
theorem exists_firstMatch_number {text : List Char} (h : text.head?.any Char.isDigit = true)
    (back : List Rule) : ∃ rule ∈ numberRules, ∃ count,
      firstMatch? (numberRules ++ back) text = some (rule, count) := by
  cases text with
  | nil => cases h
  | cons c rest =>
      have hdigit : IsNumber [c] := .integer (.intro h nofun)
      obtain ⟨number, hnumber, hword⟩ := isNumber_iff.mp hdigit
      obtain ⟨rule, hrule, n, hn, _⟩ := exists_number hnumber hword (List.prefix_append [c] rest)
      obtain ⟨first, count, hf⟩ := Grammar.exists_firstMatch? hrule hn
      refine ⟨first, (Grammar.matchCount?_of_firstMatch? hf).1, count, ?_⟩
      exact Grammar.firstMatch?_append_of_some hf back

/-- The first rule for numbers that matches takes the longest number. -/
theorem longestWord_number {mode : Mode} {text : List Char} {rule : Rule} {count : Nat}
    (hrule : rule ∈ numberRules) (hmode : ∀ rule ∈ numberRules, rule ∈ rules mode)
    (hf : firstMatch? (rules mode) text = some (rule, count)) :
    LongestWord {w | IsNumber w} text (text.take count) := by
  have hm := (Grammar.matchCount?_of_firstMatch? hf).2
  have hlength := List.length_take_of_le (Pattern.matchCount?_le_length hm)
  obtain ⟨number, hnumber, rfl⟩ := List.mem_map.mp hrule
  obtain ⟨w, hw, rfl⟩ := (Pattern.matchCount?_longest (takesLongest_numbers number hnumber)).mp hm
  rw [← List.prefix_iff_eq_take.mp hw.starts]
  refine ⟨isNumber_iff.mpr ⟨number, hnumber, hw.mem⟩, hw.starts, fun v hv hvt => ?_⟩
  obtain ⟨other, hother, hword⟩ := isNumber_iff.mp hv
  obtain ⟨later, hlater, n, hn, hle⟩ := exists_number hother hword hvt
  exact hle.trans (Grammar.count_le_firstMatch (outlasts_rules mode) hf later (hmode _ hlater) n hn)

/-- At a digit the first rule that matches is that for durations, if there is one, or else a rule
for numbers. -/
theorem firstMatch?_at_digit {mode : Mode} {text : List Char} (h : mode.scansExpressions = true)
    (hdigit : text.head?.any Char.isDigit = true) :
    (IsDuration (text.takeWhile Word.isContinue) ∧
        firstMatch? (rules mode) text =
          some (durationRule, (text.takeWhile Word.isContinue).length)) ∨
      ¬ IsDuration (text.takeWhile Word.isContinue) ∧ ∃ rule ∈ numberRules, ∃ count,
        firstMatch? (rules mode) text = some (rule, count) ∧
          LongestWord {w | IsNumber w} text (text.take count) := by
  obtain ⟨front, back, hrules, hapart⟩ := exists_rules_eq_numerals h
  have hclass : Char.isDigit = digit.contains := funext fun c => (contains_digit c).symm
  have hnone := Pattern.matchCount?_of_apart_rules hapart (hclass ▸ hdigit)
  have hfront := Grammar.firstMatch?_append_of_none (durationRule :: (numberRules ++ back)) hnone
  rw [← hrules] at hfront
  by_cases hduration : IsDuration (text.takeWhile Word.isContinue)
  · have hm := matchCount?_durationRule.mpr ⟨hduration, rfl⟩
    exact .inl ⟨hduration, hfront.trans (Grammar.firstMatch?_cons_some _ hm)⟩
  · have hm : durationRule.pattern.matchCount? text = none :=
      Option.eq_none_iff_forall_ne_some.mpr fun n hn =>
        hduration (matchCount?_durationRule.mp hn).1
    obtain ⟨rule, hrule, count, hf⟩ := exists_firstMatch_number hdigit back
    rw [Grammar.firstMatch?_cons_none _ hm, hf] at hfront
    refine .inr ⟨hduration, rule, hrule, count, hfront, ?_⟩
    refine longestWord_number hrule (fun other hother => ?_) hfront
    rw [hrules]
    simp [hother]

theorem numberRules_plain : ∀ rule ∈ numberRules,
    rule.kind = .number ∧ rule.transition = .stay :=
  List.forall_mem_map.mpr fun _ _ => ⟨rfl, rfl⟩

/-- Where a digit stands in an expression, the run of digits, letters and underscores there is taken
if it is a duration, which it is in one way at most. Otherwise the longest number is taken. -/
theorem numeral_taken (s : Scanner) (h : AtDigit s) :
    ∃ p t, s.next? grammar = some (p, t) ∧ p.token.start = s.offset ∧
      s.rest = p.token.text ++ t.rest ∧ t.stack = s.stack ∧ TakesNumeral s p := by
  obtain ⟨hmode, hdigit⟩ := h
  have hne : s.rest ≠ [] := by
    intro he
    rw [he] at hdigit
    cases hdigit
  obtain ⟨hduration, hf⟩ | ⟨hnot, rule, hrule, count, hf, hlongest⟩ :=
    firstMatch?_at_digit hmode hdigit
  · refine ⟨_, _, Scanner.next?_of_move hne (move_of_firstMatch hf), rfl,
      (List.take_append_drop _ _).symm, rfl, iff_of_true rfl hduration, fun _ => ?_,
      fun hnot => absurd hduration hnot⟩
    have htake := List.prefix_iff_eq_take.mp (List.takeWhile_prefix (l := s.rest) Word.isContinue)
    rw [htake] at hduration
    exact ⟨htake.symm, hduration.existsUnique⟩
  · obtain ⟨hkind, hstay⟩ := numberRules_plain rule hrule
    refine ⟨_, _, Scanner.next?_of_move hne (move_of_firstMatch hf), rfl,
      (List.take_append_drop _ _).symm, ?_, iff_of_false ?_ hnot, fun hd => absurd hd hnot,
      fun _ => ⟨hkind, hlongest⟩⟩
    · rw [hstay]
      rfl
    · exact fun hd => absurd (hkind.symm.trans hd) (by decide)

theorem duration_in_hole :
    ∃ p t, (Scanner.after grammar "\"#\x7b1h30m\x7d\"".toList 2).next? grammar = some (p, t) ∧
      p.token.kind = .duration ∧ p.token.text = "1h30m".toList := by
  have hrest : (Scanner.after grammar "\"#\x7b1h30m\x7d\"".toList 2).rest =
      "1h30m\x7d\"".toList := by
    decide +kernel
  have hduration : IsDuration "1h30m".toList := by
    refine ⟨[⟨['1'], ['h'], ?_, List.all_eq_true.mp rfl, ?_⟩,
      ⟨['3', '0'], ['m'], ?_, List.all_eq_true.mp rfl, ?_⟩], ?_, rfl⟩
    all_goals decide
  obtain ⟨p, t, hn, _, _, _, htakes⟩ := numeral_taken _
    ⟨by decide +kernel, congrArg (fun text => text.head?.any Char.isDigit) hrest⟩
  have hkind := htakes.duration_iff
  have htext := htakes.duration
  rw [hrest] at hkind htext
  exact ⟨p, t, hn, hkind.mpr hduration, (htext hduration).1⟩

end Liquidsoap
end LiquidsoapHighlight
