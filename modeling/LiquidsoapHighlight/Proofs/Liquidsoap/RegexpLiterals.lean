import LiquidsoapHighlight.Proofs.Grammar.LongestMatch
import LiquidsoapHighlight.Proofs.Liquidsoap.WholeWords

/-!
Regular expression literals. What the rule for them takes is the only reading of the text as a
literal: up to the first slash that is not escaped, which comes on the same line, and on with the
flags right after it.
-/

namespace LiquidsoapHighlight
namespace Liquidsoap

/-- A character of a regular expression, or an escaped one. -/
inductive RegexpItem where
  | plain (c : Char) (slash : c ≠ '/') (escape : c ≠ '\\') (newline : c ≠ '\n')
  | escaped (c : Char) (newline : c ≠ '\n')

/-- The character after the text is escaped, by a backslash that is not escaped itself. -/
def escapesNext (text : List Char) : Bool :=
  text.foldl (fun escaped c => !escaped && c == '\\') false

namespace RegexpItem

def text : RegexpItem → List Char
  | plain c _ _ _ => [c]
  | escaped c _ => ['\\', c]

theorem append_ne_slash (item : RegexpItem) (u v : List Char) : item.text ++ u ≠ '/' :: v := by
  intro h
  cases item with
  | plain c slash _ _ => exact slash (List.cons.inj h).1
  | escaped c _ => exact absurd (List.cons.inj h).1 (by decide)

theorem append_injective {item other : RegexpItem} {u v : List Char}
    (h : item.text ++ u = other.text ++ v) : item = other ∧ u = v := by
  cases item with
  | plain c _ escape _ =>
      cases other with
      | plain d _ _ _ =>
          obtain ⟨rfl, rfl⟩ := List.cons.inj h
          exact ⟨rfl, rfl⟩
      | escaped d _ => exact absurd (List.cons.inj h).1 escape
  | escaped c _ =>
      cases other with
      | plain d _ escape _ => exact absurd (List.cons.inj h).1.symm escape
      | escaped d _ =>
          obtain ⟨rfl, rfl⟩ := List.cons.inj (List.cons.inj h).2
          exact ⟨rfl, rfl⟩

/-- The items that come before a slash can be told from the text. -/
theorem flatMap_text_injective {items others : List RegexpItem} {u v : List Char}
    (h : items.flatMap text ++ '/' :: u = others.flatMap text ++ '/' :: v) :
    items = others ∧ u = v := by
  induction items generalizing others with
  | nil =>
      cases others with
      | nil => exact ⟨rfl, (List.cons.inj h).2⟩
      | cons other others =>
          rw [List.flatMap_cons, List.append_assoc] at h
          exact absurd h.symm (other.append_ne_slash _ _)
  | cons item items ih =>
      rw [List.flatMap_cons, List.append_assoc] at h
      cases others with
      | nil => exact absurd h (item.append_ne_slash _ _)
      | cons other others =>
          rw [List.flatMap_cons, List.append_assoc] at h
          obtain ⟨rfl, hrest⟩ := append_injective h
          obtain ⟨rfl, rfl⟩ := ih hrest
          exact ⟨rfl, rfl⟩

theorem newline_not_mem (items : List RegexpItem) : '\n' ∉ items.flatMap text := by
  intro h
  obtain ⟨item, _, hitem⟩ := List.mem_flatMap.mp h
  cases item with
  | plain c _ _ newline => exact newline (List.mem_singleton.mp hitem).symm
  | escaped c newline =>
      rcases List.mem_pair.mp hitem with hescape | hc
      · exact absurd hescape (by decide)
      · exact newline hc.symm

theorem escapesNext_append (item : RegexpItem) (rest : List Char) :
    escapesNext (item.text ++ rest) = escapesNext rest := by
  cases item with
  | plain c _ escape _ =>
      have hc : (c == '\\') = false := beq_eq_false_iff_ne.mpr escape
      simp [text, escapesNext, hc]
  | escaped c _ => simp [text, escapesNext]

theorem escapesNext_items (items : List RegexpItem) :
    escapesNext (items.flatMap text) = false := by
  induction items with
  | nil => rfl
  | cons item items ih => rw [List.flatMap_cons, escapesNext_append, ih]

/-- Each slash in the items is escaped. -/
theorem escapesNext_of_slash {items : List RegexpItem} {front back : List Char}
    (h : items.flatMap text = front ++ '/' :: back) : escapesNext front = true := by
  induction items generalizing front with
  | nil => exact absurd (List.append_eq_nil_iff.mp h.symm).2 (List.cons_ne_nil _ _)
  | cons item items ih =>
      rw [List.flatMap_cons] at h
      cases item with
      | plain c slash escape newline =>
          cases front with
          | nil => exact absurd (List.cons.inj h).1 slash
          | cons d front =>
              obtain ⟨rfl, hrest⟩ := List.cons.inj h
              exact (escapesNext_append (.plain c slash escape newline) front).trans (ih hrest)
      | escaped c newline =>
          match front with
          | [] => exact absurd (List.cons.inj h).1 (by decide)
          | [d] =>
              obtain ⟨rfl, _⟩ := List.cons.inj h
              rfl
          | d :: e :: front =>
              obtain ⟨rfl, hpair⟩ := List.cons.inj h
              obtain ⟨rfl, hrest⟩ := List.cons.inj hpair
              exact (escapesNext_append (.escaped c newline) front).trans (ih hrest)

end RegexpItem

def regexpFlags : List Char := ['g', 'i', 'm', 's', 'u']

/-- A reading of the text as a literal, with what comes after it. -/
structure RegexpReading (text : List Char) where
  items : List RegexpItem
  flags : List Char
  tail : List Char
  items_ne_nil : items ≠ []
  flags_longest : (flags ++ tail).takeWhile regexpFlags.contains = flags
  reads : text = 'r' :: '/' :: (items.flatMap RegexpItem.text ++ '/' :: (flags ++ tail))

namespace RegexpReading
variable {text : List Char}

def body (r : RegexpReading text) : List Char := r.items.flatMap RegexpItem.text

def literal (r : RegexpReading text) : List Char := 'r' :: '/' :: (r.body ++ '/' :: r.flags)

theorem unique (r r' : RegexpReading text) : r = r' := by
  obtain ⟨items, flags, tail, _, hflags, htext⟩ := r
  obtain ⟨items', flags', tail', _, hflags', htext'⟩ := r'
  have hafter := (List.cons.inj (List.cons.inj (htext.symm.trans htext')).2).2
  obtain ⟨rfl, hrest⟩ := RegexpItem.flatMap_text_injective hafter
  obtain rfl : flags = flags' := by rw [← hflags, hrest, hflags']
  obtain rfl := List.append_cancel_left hrest
  rfl

theorem text_eq (r : RegexpReading text) : r.literal ++ r.tail = text := by
  refine Eq.trans ?_ r.reads.symm
  simp [literal, body]

theorem take_literal (r : RegexpReading text) : text.take r.literal.length = r.literal :=
  (List.prefix_iff_eq_take.mp ⟨r.tail, r.text_eq⟩).symm

theorem flags_mem (r : RegexpReading text) : ∀ c ∈ r.flags, c ∈ regexpFlags := by
  intro c hc
  rw [← r.flags_longest] at hc
  exact List.contains_iff_mem.mp (List.mem_takeWhile_imp hc)

theorem newline_not_mem (r : RegexpReading text) : '\n' ∉ r.literal := by
  have hflags : '\n' ∉ r.flags := fun h => absurd (r.flags_mem _ h) (by decide)
  have hbody : '\n' ∉ r.body := RegexpItem.newline_not_mem r.items
  simp [literal, hbody, hflags]

end RegexpReading

section Words

open Regex

theorem mem_words_regexpItem {w : List Char} :
    w ∈ regexpItem.words ↔ ∃ item : RegexpItem, item.text = w := by
  have hplain : ∀ c, (CharClass.ofChars ['\n', '/', '\\']).complement.contains c = true ↔
      c ≠ '\n' ∧ c ≠ '/' ∧ c ≠ '\\' := by
    intro c
    simp [CharClass.contains_complement, ← Bool.not_eq_true, CharClass.contains_ofChars]
  have hescaped : ∀ c, (CharClass.ofChars ['\n']).complement.contains c = true ↔ c ≠ '\n' := by
    intro c
    simp [CharClass.contains_complement, ← Bool.not_eq_true, CharClass.contains_ofChars]
  constructor
  · rintro (⟨c, hc, rfl⟩ | hseq)
    · obtain ⟨newline, slash, escape⟩ := (hplain c).mp hc
      exact ⟨.plain c slash escape newline, rfl⟩
    · obtain ⟨_, ⟨c, hc, rfl⟩, rfl⟩ := mem_words_seq_char.mp hseq
      exact ⟨.escaped c ((hescaped c).mp hc), rfl⟩
  · rintro ⟨item, rfl⟩
    cases item with
    | plain c slash escape newline =>
        exact .inl ⟨c, (hplain c).mpr ⟨newline, slash, escape⟩, rfl⟩
    | escaped c newline =>
        exact .inr (mem_words_seq_char.mpr ⟨_, ⟨c, (hescaped c).mpr newline, rfl⟩, rfl⟩)

theorem mem_words_regexp {w : List Char} :
    w ∈ regexp.regex.words ↔ ∃ items ≠ [], ∃ flags : List Char, (∀ c ∈ flags, c ∈ regexpFlags) ∧
      w = 'r' :: '/' :: (items.flatMap RegexpItem.text ++ '/' :: flags) := by
  have hflags : ∀ v, v ∈ (star (oneOf (.ofChars ['g', 'i', 'm', 's', 'u']))).words ↔
      ∀ c ∈ v, c ∈ regexpFlags := by
    intro v
    simp only [mem_words_star_oneOf_iff, CharClass.contains_ofChars, regexpFlags]
  constructor
  · intro h
    obtain ⟨_, hslash, rfl⟩ := mem_words_seq_char.mp h
    obtain ⟨_, hitems, rfl⟩ := mem_words_seq_char.mp hslash
    obtain ⟨_, hbody, _, hclose, rfl⟩ := Language.mem_mul.mp hitems
    obtain ⟨items, hne, rfl⟩ := (mem_words_plus_of_text fun _ => mem_words_regexpItem).mp hbody
    obtain ⟨flags, hmem, rfl⟩ := mem_words_seq_char.mp hclose
    exact ⟨items, hne, flags, (hflags flags).mp hmem, rfl⟩
  · rintro ⟨items, hne, flags, hmem, rfl⟩
    refine mem_words_seq_char.mpr ⟨_, mem_words_seq_char.mpr ⟨_, ?_, rfl⟩, rfl⟩
    refine Language.append_mem_mul
      ((mem_words_plus_of_text fun _ => mem_words_regexpItem).mpr ⟨items, hne, rfl⟩) ?_
    exact mem_words_seq_char.mpr ⟨flags, (hflags flags).mpr hmem, rfl⟩

end Words

theorem takesLongest_regexp : regexp.takesLongest = true := by
  decide +kernel

namespace RegexpReading
variable {text : List Char}

theorem literal_mem_words (r : RegexpReading text) : r.literal ∈ regexp.regex.words :=
  mem_words_regexp.mpr ⟨r.items, r.items_ne_nil, r.flags, r.flags_mem, rfl⟩

/-- The longest word of the expression is a reading: with another flag it would be longer. -/
theorem exists_of_longestWord {w : List Char} (h : LongestWord regexp.regex.words text w) :
    ∃ r : RegexpReading text, r.literal = w := by
  obtain ⟨items, hne, flags, hmem, rfl⟩ := mem_words_regexp.mp h.mem
  obtain ⟨tail, rfl⟩ := h.starts
  refine ⟨⟨items, flags, tail, hne, Text.takeWhile_append_of_stop ?_ ?_, by simp⟩, rfl⟩
  · exact fun c hc => List.contains_iff_mem.mpr (hmem c hc)
  · cases tail with
    | nil => rfl
    | cons c tail =>
        rw [List.head?_cons, Option.any_some, ← Bool.not_eq_true, List.contains_iff_mem]
        intro hc
        have hflags := List.forall_mem_append.mpr ⟨hmem, List.forall_mem_singleton.mpr hc⟩
        refine absurd (h.eq_nil_of_append ?_ ?_ : [c] = []) (List.cons_ne_nil c [])
        · exact mem_words_regexp.mpr ⟨items, hne, flags ++ [c], hflags, by simp⟩
        · exact ⟨tail, by simp⟩

/-- The rule for literals takes the one reading of the text. -/
theorem matchCount?_regexpRule {n : Nat} : regexpRule.pattern.matchCount? text = some n ↔
    ∃ r : RegexpReading text, r.literal.length = n := by
  constructor
  · intro h
    obtain ⟨w, hw, rfl⟩ := (Pattern.matchCount?_longest takesLongest_regexp).mp h
    obtain ⟨r, rfl⟩ := exists_of_longestWord hw
    exact ⟨r, rfl⟩
  · rintro ⟨r, rfl⟩
    obtain ⟨n, hn, _⟩ := Pattern.exists_le_matchCount? takesLongest_regexp r.literal_mem_words
      ⟨r.tail, r.text_eq⟩
    obtain ⟨w, hw, rfl⟩ := (Pattern.matchCount?_longest takesLongest_regexp).mp hn
    obtain ⟨r', rfl⟩ := exists_of_longestWord hw
    rw [unique r r']
    exact hn

end RegexpReading

/-- The rule for literals takes a text by its reading as a literal, of which there is one at most.
The slash that ends it is the first one that is not escaped, and no line ends before. -/
theorem regexp_ends_at_slash (text : List Char) :
    regexpRule ∈ topLevelRules ∧
    (∀ n, regexpRule.pattern.matchLength? text = some n ↔
      ∃ r : RegexpReading text, Text.byteLength r.literal = n) ∧
    (∀ r r' : RegexpReading text, r = r') ∧
    ∀ r : RegexpReading text, '\n' ∉ r.literal ∧ escapesNext r.body = false ∧
      ∀ front back, r.body = front ++ '/' :: back → escapesNext front = true := by
  refine ⟨List.mem_of_getElem? (i := 7) rfl, fun n => ?_, RegexpReading.unique,
    fun r => ⟨r.newline_not_mem, ?_, ?_⟩⟩
  · simp only [Pattern.matchLength?, Option.map_eq_some_iff, RegexpReading.matchCount?_regexpRule]
    constructor
    · rintro ⟨_, ⟨r, rfl⟩, rfl⟩
      exact ⟨r, congrArg Text.byteLength r.take_literal.symm⟩
    · rintro ⟨r, rfl⟩
      exact ⟨_, ⟨r, rfl⟩, congrArg Text.byteLength r.take_literal⟩
  · exact RegexpItem.escapesNext_items r.items
  · exact fun front back h => RegexpItem.escapesNext_of_slash h

theorem regexp_with_escaped_slash :
    regexpRule.pattern.matchLength? "r/a\\/b/gx".toList = some 8 ∧
      escapesNext "a\\".toList = true := by
  let r : RegexpReading "r/a\\/b/gx".toList :=
    { items := [.plain 'a' (by decide) (by decide) (by decide), .escaped '/' (by decide),
        .plain 'b' (by decide) (by decide) (by decide)]
      flags := ['g']
      tail := ['x']
      items_ne_nil := List.cons_ne_nil _ _
      flags_longest := rfl
      reads := rfl }
  obtain ⟨_, hmatch, _, hends⟩ := regexp_ends_at_slash "r/a\\/b/gx".toList
  exact ⟨(hmatch 8).mpr ⟨r, rfl⟩, (hends r).2.2 "a\\".toList ['b'] rfl⟩

end Liquidsoap
end LiquidsoapHighlight
