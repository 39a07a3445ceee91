import LiquidsoapHighlight.Proofs.Grammar.Defects
import LiquidsoapHighlight.Proofs.Grammar.Outline
import LiquidsoapHighlight.Proofs.Regex.Documented

/-!
The minimum length of a pattern is a lower bound for its matches. It is there for each pattern that
matches a text, but for an expression that is measured otherwise than it is matched: one that is
whole only with the group around it, or one with a class that has no characters. This holds for
expressions of any library that does what its documentation says.
-/

namespace LiquidsoapHighlight

variable {library : RegexLibrary}

namespace Expression

/-- The source cannot be parsed without the group around it, or it has a class without characters,
be it in one of several branches. -/
def IsUnmeasured (doc : library.Documented) (e : Expression) : Prop :=
  library.parse? e.source = none ∨
    ∃ parsed, library.parse? e.source = some parsed ∧ doc.HasEmptyClass parsed

def CompiledBy (library : RegexLibrary) (e : Expression) : Prop :=
  compile? library e.source = some e

theorem CompiledBy.exists_matcher {e : Expression} (h : e.CompiledBy library) :
    library.compile? (Regex.anchored e.source) = some e.matcher ∧
      e.minLength? = (library.parse? e.source).bind library.minLength? := by
  obtain ⟨matcher, hmatcher, made⟩ := Option.bind_eq_some_iff.mp h
  have hsame := Option.some.inj made
  exact ⟨hsame ▸ hmatcher, (congrArg Expression.minLength? hsame).symm⟩

theorem CompiledBy.isUnmeasured {e : Expression} (h : e.CompiledBy library)
    (doc : library.Documented) (hnone : e.minLength? = none) : e.IsUnmeasured doc := by
  rw [h.exists_matcher.2] at hnone
  cases hparsed : library.parse? e.source with
  | none => exact .inl hparsed
  | some parsed =>
      rw [hparsed] at hnone
      exact .inr ⟨parsed, hparsed, doc.hasEmptyClass hnone⟩

/-- A measured source is matched as it is measured. -/
theorem CompiledBy.minLength_le {e : Expression} (h : e.CompiledBy library)
    (doc : library.Documented) {text : List Char} {m n : Nat} (hm : e.minLength? = some m)
    (hn : e.matchCount? text = some n) : m ≤ Text.byteLength (text.take n) := by
  obtain ⟨hmatcher, hmin⟩ := h.exists_matcher
  rw [hmin, Option.bind_eq_some_iff] at hm
  obtain ⟨parsed, hparsed, hm⟩ := hm
  exact doc.minLength_le (doc.matches_of_anchored hparsed hmatcher hn) hm

end Expression

namespace Pattern

def IsUnmeasured (doc : library.Documented) : Pattern → Prop
  | expression e _ => e.IsUnmeasured doc
  | _ => False

/-- The expression of the pattern, if it has one, is as the library compiles its source. -/
def CompiledBy (library : RegexLibrary) : Pattern → Prop
  | expression e _ => e.CompiledBy library
  | _ => True

/-- A listed text that is matched is not shorter than the shortest of the list. -/
theorem exists_minLength?_le {texts : List (List Char)} {word : List Char} (h : word ∈ texts) :
    ∃ m ≤ Text.byteLength word, (texts.map Text.byteLength).min? = some m := by
  obtain ⟨m, hm, hle⟩ := exists_min?_le (List.mem_map_of_mem (f := Text.byteLength) h)
  exact ⟨m, hle, hm⟩

theorem exists_minLength?_of_matchLength? {p : Pattern} (hp : p.CompiledBy library)
    (doc : library.Documented) {text : List Char} {length : Nat}
    (hlength : p.matchLength? text = some length) :
    (∃ m ≤ length, p.minLength? = some m) ∨ p.minLength? = none ∧ p.IsUnmeasured doc := by
  obtain ⟨n, h, rfl⟩ := Option.map_eq_some_iff.mp hlength
  have hc := (Option.filter_eq_some_iff.mp h).1
  cases p with
  | literal lit => exact .inl ⟨_, Nat.le_of_eq (congrArg _ (take_of_literal h).symm), rfl⟩
  | oneOf alternatives => exact .inl (exists_minLength?_le (take_mem_of_oneOf h))
  | keywords words =>
      obtain ⟨rfl, hlisted, _⟩ := matchCount?_keywords h
      rw [Word.take_run]
      exact .inl (exists_minLength?_le hlisted)
  | expression e bounded =>
      have hcompiled : e.CompiledBy library := hp
      cases hm : e.minLength? with
      | none => exact .inr ⟨hm, hcompiled.isUnmeasured doc hm⟩
      | some m =>
          have hcount := (Option.filter_eq_some_iff.mp hc).1
          exact .inl ⟨m, hcompiled.minLength_le doc hm hcount, hm⟩
  | anyChar =>
      cases text with
      | nil => cases hc
      | cons c rest =>
          obtain rfl : 1 = n := by simpa [candidate?] using hc
          exact .inl ⟨1, c.utf8Size_pos, rfl⟩

end Pattern

open Grammar ModeDefinition

/-- What a pattern matches is never shorter than its minimum length, and a rule that is refused
because there is none matches nothing; an expression that is not measured apart. -/
theorem Pattern.minLength_bounds_matches (doc : library.Documented) {p : Pattern}
    (hp : p.CompiledBy library) {definitions : List ModeDefinition}
    (hdefinitions : ∀ definition ∈ definitions, ∀ rule ∈ definition.rules,
      rule.pattern.CompiledBy library) :
    (∀ text n, p.matchLength? text = some n →
      (∃ m ≤ n, p.minLength? = some m) ∨ p.minLength? = none ∧ p.IsUnmeasured doc) ∧
    ∀ mode name, build definitions = .error (.unmatchablePattern mode name) →
      HasRule definitions mode name fun rule =>
        rule.pattern.IsUnmeasured doc ∨ ∀ text, rule.pattern.matchLength? text = none := by
  refine ⟨fun _ _ h => exists_minLength?_of_matchLength? hp doc h, fun mode name h => ?_⟩
  obtain ⟨definition, hd, hmode, rule, hr, hname, hnone⟩ := occursIn_of_build h
  have hcompiled := hdefinitions definition hd rule hr
  refine ⟨definition, hd, hmode, rule, hr, hname, or_iff_not_imp_right.mpr fun hmatches => ?_⟩
  obtain ⟨text, htext⟩ := not_forall.mp hmatches
  obtain ⟨n, hn⟩ := Option.ne_none_iff_exists'.mp htext
  cases exists_minLength?_of_matchLength? hcompiled doc hn with
  | inl hmin =>
      obtain ⟨m, _, hm⟩ := hmin
      cases hnone.symm.trans hm
  | inr hunmeasured => exact hunmeasured.2

/-- A grammar with nothing but an empty list of words. -/
def noWords : List ModeDefinition := [⟨.topLevel, [⟨"word", .keywords [], .plain, .stay⟩]⟩]

def letterRun : WrittenRegex := ⟨"ab+".toList, .seq (.char 'a') (.plus (.char 'b')), rfl⟩

theorem Pattern.letterRun_measured :
    (expression letterRun false).matchLength? "abbc".toList = some 3 ∧
      (∃ m ≤ 3, (expression letterRun false).minLength? = some m) ∧
      build noWords = .error (.unmatchablePattern .topLevel "word") ∧
      HasRule noWords .topLevel "word" fun rule => rule.pattern.IsUnmeasured Regex.documented ∨
        ∀ text, rule.pattern.matchLength? text = none := by
  have htaken : (expression letterRun false).matchLength? "abbc".toList = some 3 := by
    decide +kernel
  have hrefused : build noWords = .error (.unmatchablePattern .topLevel "word") := rfl
  have hcompiled : ∀ definition ∈ noWords, ∀ rule ∈ definition.rules,
      rule.pattern.CompiledBy Regex.library := by
    simp [noWords, CompiledBy]
  obtain ⟨hbounds, hunmatchable⟩ := @minLength_bounds_matches _ Regex.documented
    (expression letterRun false) letterRun.ofSource?_source noWords hcompiled
  refine ⟨htaken, (hbounds _ 3 htaken).resolve_right fun hnone => ?_, hrefused,
    hunmatchable _ _ hrefused⟩
  cases hnone.1

/-- A source that ends the group around it and opens another one matches a text, though there is
nothing that it could be read as by itself. -/
theorem Pattern.reopened_group_matches :
    ∃ e, Expression.ofSource? "a)(?:b".toList = some e ∧
      (expression e false).matchLength? "ab".toList = some 2 ∧
      (expression e false).minLength? = none ∧
      build [⟨.topLevel, [⟨"pair", expression e false, .plain, .stay⟩,
        ⟨"other", .anyChar, .plain, .stay⟩]⟩] = .error (.unmatchablePattern .topLevel "pair") :=
  ⟨⟨"a)(?:b".toList, .regex (Regex.text "ab".toList), none⟩, rfl, by decide +kernel, rfl, rfl⟩

-- The class that the second branch consists of excludes all characters.
example :
    let source := "ab|[^".toList ++ [Char.ofNat 0, '-', Char.ofNat 0x10ffff, ']']
    (Expression.ofSource? source).map (fun e => (e.matchCount? "ab".toList, e.minLength?)) =
      some (some 2, none) := by
  decide +kernel

end LiquidsoapHighlight
