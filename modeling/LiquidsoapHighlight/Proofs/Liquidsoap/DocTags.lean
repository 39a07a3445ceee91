import LiquidsoapHighlight.Proofs.Grammar.Outline
import LiquidsoapHighlight.Proofs.Regex.Continuation

/-!
Doc tags and where they end. The name of a tag is one of a few words, and it has to be a whole word.
Words are ASCII everywhere else, but a tag is not taken before a letter of any other script either.
-/

namespace LiquidsoapHighlight

namespace Text

/-- Among the ASCII characters, those of words are the word characters of Unicode. -/
theorem contains_wordChars_of_ascii {c : Char} (h : c.toNat < 0x80) :
    wordChars.contains c = Word.isContinue c := by
  have hranges : wordChars.ranges.filter (·.1 < 0x80) =
      Liquidsoap.wordContinue.listed.ranges := by
    decide +kernel
  rw [Word.isContinue_eq_contains, ← CodeRanges.contains_filter_below h, hranges]
  exact (Bool.bne_false _).symm

theorem contains_wordChars_of_isContinue {c : Char} (h : Word.isContinue c = true) :
    wordChars.contains c = true := by
  rw [Word.isContinue_eq_contains] at h
  have hcovers : wordChars.covers Liquidsoap.wordContinue.listed = true := by decide +kernel
  exact CodeRanges.contains_of_covers hcovers ((Bool.bne_false _).symm.trans h)

theorem ends_word_of_not_wordChar {next : Option Char}
    (h : next.any wordChars.contains = false) : next.any Word.isContinue = false := by
  rw [Bool.eq_false_iff] at h ⊢
  intro hcont
  obtain ⟨c, hc, hword⟩ := (Option.any_eq_true ..).mp hcont
  exact h ((Option.any_eq_true ..).mpr ⟨c, hc, contains_wordChars_of_isContinue hword⟩)

end Text

namespace Regex

/-- After a word character, a boundary is where no word character comes next. -/
theorem follow_boundary (a : Address) {before : Char}
    (h : Text.wordChars.contains before = true) (count : Nat) (rest : List Char) :
    follow [[.start a boundary]] (some before) count none rest =
      if rest.head?.any Text.wordChars.contains then none else some count := by
  cases rest with
  | nil =>
      have hend : isBoundary (some before) none = true := by simp [isBoundary, h]
      simp only [follow, hend]
      rfl
  | cons c rest =>
      have hnext : isBoundary (some before) (some c) = !Text.wordChars.contains c := by
        simp [isBoundary, h]
      cases hc : Text.wordChars.contains c <;>
        simp only [follow, hnext, hc, List.head?_cons, Option.any_some] <;> rfl

end Regex

namespace Word

theorem run_append_of_stop {name rest : List Char} (hname : run name = name) (hne : name ≠ [])
    (hstop : rest.head?.any isContinue = false) : run (name ++ rest) = name := by
  cases rest with
  | nil => rwa [List.append_nil]
  | cons c rest => rw [run_append hstop rest hne, hname]

/-- A text is its first word and a rest that does not go on with the word. -/
theorem exists_rest {text : List Char} (h : run text ≠ []) :
    ∃ rest, text = run text ++ rest ∧ rest.head?.any isContinue = false := by
  rw [run_eq_takeWhile h]
  exact ⟨_, (List.prefix_iff_eq_append.mp (List.takeWhile_prefix _)).symm,
    Text.stops_after_takeWhile isContinue text⟩

end Word

namespace Liquidsoap

open Regex

def docTagNames : List (List Char) :=
  ["argsof", "category", "docof", "flag", "method", "param"].map String.toList

/-- The doc tag at the start of a text, if the whole word after the sign is the name of one. -/
def docTag? : List Char → Option (List Char)
  | '@' :: rest =>
    if docTagNames.contains (Word.run rest) then some ('@' :: Word.run rest) else none
  | _ => none

theorem docTag?_eq_some {text tag : List Char} : docTag? text = some tag ↔
    ∃ rest, text = '@' :: rest ∧ Word.run rest ∈ docTagNames ∧ tag = '@' :: Word.run rest := by
  unfold docTag?
  split
  · next rest => simp [eq_comm]
  · next hsign =>
      constructor
      · nofun
      · rintro ⟨rest, rfl, _⟩
        exact absurd rfl (hsign rest)

/-- A doc tag is followed by a word character that is not ASCII. -/
def TagRunsOn (text : List Char) : Prop :=
  ∃ tag c, docTag? text = some tag ∧ (text.drop tag.length).head? = some c ∧
    0x80 ≤ c.toNat ∧ Text.wordChars.contains c = true

theorem run_docTagName : ∀ name ∈ docTagNames, Word.run name = name ∧ name ≠ [] := by
  decide

theorem follow_docTag {name : List Char} (h : name ∈ docTagNames) (rest : List Char) :
    ∃ last, Text.wordChars.contains last = true ∧
      docTag.regex.matchCount? ('@' :: (name ++ rest)) =
        follow [[.start [true, true] boundary]] (some last) (name.length + 1) none rest := by
  simp only [docTagNames, List.map_cons, List.map_nil, List.mem_cons, List.not_mem_nil,
    or_false] at h
  rcases h with rfl | rfl | rfl | rfl | rfl | rfl
  · exact ⟨'f', rfl, rfl⟩
  · exact ⟨'y', rfl, rfl⟩
  · exact ⟨'f', rfl, rfl⟩
  · exact ⟨'g', rfl, rfl⟩
  · exact ⟨'d', rfl, rfl⟩
  · exact ⟨'m', rfl, rfl⟩

theorem matchCount?_docTagName {name : List Char} (h : name ∈ docTagNames) (rest : List Char) :
    docTag.regex.matchCount? ('@' :: (name ++ rest)) =
      if rest.head?.any Text.wordChars.contains then none else some (name.length + 1) := by
  obtain ⟨last, hlast, hfollow⟩ := follow_docTag h rest
  rw [hfollow, follow_boundary _ hlast]

theorem mem_words_docTag {w : List Char} (h : w ∈ docTag.regex.words) :
    ∃ name ∈ docTagNames, w = '@' :: name := by
  obtain ⟨sign, hsign, rest, hrest, rfl⟩ := Language.mem_mul.mp h
  obtain ⟨name, hname, stop, hstop, rfl⟩ := Language.mem_mul.mp hrest
  obtain rfl := mem_words_char.mp hsign
  obtain rfl : stop = [] := hstop
  obtain ⟨r, hr, hword⟩ := mem_words_choice.mp hname
  have hall : r ∈ docTagNames.map Regex.text := hr
  obtain ⟨tag, htag, rfl⟩ := List.mem_map.mp hall
  obtain rfl := mem_words_text.mp hword
  exact ⟨name, htag, by simp⟩

theorem matchCount?_docTag_eq_some {text : List Char} {count : Nat}
    (h : docTag.regex.matchCount? text = some count) : ∃ name ∈ docTagNames, ∃ rest,
      text = '@' :: (name ++ rest) ∧ rest.head?.any Text.wordChars.contains = false ∧
        count = name.length + 1 := by
  obtain ⟨name, hname, htake⟩ := mem_words_docTag (take_mem_words h)
  have htext : text = '@' :: (name ++ text.drop count) := by
    rw [← List.cons_append, ← htake, List.take_append_drop]
  have hcount := matchCount?_docTagName hname (text.drop count)
  rw [← htext, h] at hcount
  split at hcount
  · cases hcount
  · next hnext =>
      exact ⟨name, hname, _, htext, Bool.eq_false_iff.mpr hnext, Option.some.inj hcount⟩

theorem docTag?_append {name rest : List Char} (hname : name ∈ docTagNames)
    (hrest : rest.head?.any Word.isContinue = false) :
    docTag? ('@' :: (name ++ rest)) = some ('@' :: name) := by
  obtain ⟨hrun, hne⟩ := run_docTagName name hname
  have hword := Word.run_append_of_stop hrun hne hrest
  exact docTag?_eq_some.mpr ⟨_, rfl, by rwa [hword], by rw [hword]⟩

theorem exists_rest_of_docTag? {text tag : List Char} (h : docTag? text = some tag) :
    ∃ name ∈ docTagNames, ∃ rest, text = '@' :: (name ++ rest) ∧
      rest.head?.any Word.isContinue = false ∧ tag = '@' :: name := by
  obtain ⟨below, rfl, hname, rfl⟩ := docTag?_eq_some.mp h
  obtain ⟨rest, hbelow, hrest⟩ := Word.exists_rest (run_docTagName _ hname).2
  exact ⟨_, hname, rest, by rw [← hbelow], hrest, rfl⟩

theorem tagRunsOn_iff {name rest : List Char} (hname : name ∈ docTagNames)
    (hrest : rest.head?.any Word.isContinue = false) :
    TagRunsOn ('@' :: (name ++ rest)) ↔ rest.head?.any Text.wordChars.contains = true := by
  have hdrop : ('@' :: (name ++ rest)).drop ('@' :: name).length = rest := by
    rw [← List.cons_append, List.drop_left]
  constructor
  · rintro ⟨tag, c, htag, hc, _, hword⟩
    obtain rfl := Option.some.inj (htag.symm.trans (docTag?_append hname hrest))
    rw [hdrop] at hc
    simp [hc, hword]
  · intro hnext
    obtain ⟨c, hc, hword⟩ := (Option.any_eq_true ..).mp hnext
    refine ⟨_, c, docTag?_append hname hrest, by rw [hdrop, hc], ?_, hword⟩
    by_contra hascii
    rw [Text.contains_wordChars_of_ascii (Nat.lt_of_not_le hascii)] at hword
    simp [hc, hword] at hrest

theorem matchCount?_docTag (text : List Char) :
    (Pattern.expression docTag false).matchCount? text = docTag.regex.matchCount? text := by
  cases h : docTag.regex.matchCount? text with
  | none => simp [Pattern.matchCount?, Pattern.candidate?, docTag.matchCount?_toExpression, h]
  | some count =>
      obtain ⟨name, _, _, _, _, rfl⟩ := matchCount?_docTag_eq_some h
      simp [Pattern.matchCount?, Pattern.candidate?, docTag.matchCount?_toExpression, h]

theorem take_docTag {text : List Char} {count : Nat}
    (h : (Pattern.expression docTag false).matchCount? text = some count) :
    docTag? text = some (text.take count) ∧ ¬ TagRunsOn text := by
  rw [matchCount?_docTag] at h
  obtain ⟨name, hname, rest, rfl, hnext, rfl⟩ := matchCount?_docTag_eq_some h
  have hrest := Text.ends_word_of_not_wordChar hnext
  rw [docTag?_append hname hrest, tagRunsOn_iff hname hrest, hnext]
  simp

/-- Where no tag runs on, the rule takes the tag. -/
theorem matchCount?_of_docTag? {text tag : List Char} (h : docTag? text = some tag)
    (hstop : ¬ TagRunsOn text) :
    (Pattern.expression docTag false).matchCount? text = some tag.length := by
  obtain ⟨name, hname, rest, rfl, hrest, rfl⟩ := exists_rest_of_docTag? h
  rw [tagRunsOn_iff hname hrest] at hstop
  rw [matchCount?_docTag, matchCount?_docTagName hname, if_neg hstop, List.length_cons]

def docTagRule : Rule := ⟨"doc-tag", .expression docTag false, .pragma, .stay⟩

theorem matchLength?_docTagRule_of_runsOn {text : List Char} (h : TagRunsOn text) :
    docTagRule.pattern.matchLength? text = none :=
  Option.map_eq_none_iff.mpr
    (Option.eq_none_iff_forall_ne_some.mpr fun _ hn => (take_docTag hn).2 h)

theorem matchLength?_docTagRule {text : List Char} (h : ¬ TagRunsOn text) :
    docTagRule.pattern.matchLength? text = (docTag? text).map Text.byteLength := by
  cases htag : docTag? text with
  | none =>
      refine Option.map_eq_none_iff.mpr (Option.eq_none_iff_forall_ne_some.mpr fun n hn => ?_)
      rw [(take_docTag hn).1] at htag
      cases htag
  | some tag =>
      have hcount := matchCount?_of_docTag? htag h
      have htake := htag.symm.trans (take_docTag hcount).1
      rw [Option.some.inj htake]
      exact congrArg (Option.map fun count => Text.byteLength (text.take count)) hcount

/-- The rule for doc tags takes the sign and a whole word that is the name of a tag, but nothing
where a word character of another script comes next. -/
theorem docTag_is_whole_word (text : List Char) :
    (rules .lineComment).head? = some docTagRule ∧
      (docTagRule.pattern.matchLength? text = (docTag? text).map Text.byteLength ↔
        ¬ TagRunsOn text) ∧
      (TagRunsOn text → docTagRule.pattern.matchLength? text = none) := by
  refine ⟨rfl, ⟨?_, matchLength?_docTagRule⟩, matchLength?_docTagRule_of_runsOn⟩
  intro hsame hruns
  rw [matchLength?_docTagRule_of_runsOn hruns] at hsame
  obtain ⟨tag, _, htag, _⟩ := hruns
  rw [htag] at hsame
  cases hsame

theorem accented_tag_is_not_taken :
    docTagRule.pattern.matchLength? "@paramé".toList = none ∧
      (docTag? "@paramé".toList).map Text.byteLength = some 6 := by
  decide +kernel

end Liquidsoap
end LiquidsoapHighlight
