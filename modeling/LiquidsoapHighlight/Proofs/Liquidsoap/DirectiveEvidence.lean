import LiquidsoapHighlight.Proofs.Grammar.LongestMatch
import LiquidsoapHighlight.Proofs.Liquidsoap.LineComment
import LiquidsoapHighlight.Proofs.Token.MadeOf
import LiquidsoapHighlight.Relevance

/-!
What annotations say about the language of a text. A directive is distinctive if the whole word
after its percent sign is a known name, and an annotation block always is. Doc tags never are.
-/

namespace LiquidsoapHighlight
namespace Liquidsoap

section Words

open Regex

/-- A variant of a directive. -/
def dottedWord : Regex := sequence [char '.', oneOf wordStart, star (oneOf wordContinue)]

theorem mem_words_directive {w : List Char} : w ∈ directive.regex.words ↔
    ∃ name ∈ word.words, ∃ variants ∈ (star dottedWord).words, w = '%' :: (name ++ variants) := by
  have hsplit : (seq (oneOf wordStart) (seq (star (oneOf wordContinue)) (star dottedWord))).words =
      word.words * (star dottedWord).words :=
    (mul_assoc _ _ _).symm
  constructor
  · intro h
    obtain ⟨u, hu, rfl⟩ := mem_words_seq_char.mp h
    obtain ⟨name, hname, variants, hvariants, rfl⟩ := Language.mem_mul.mp (hsplit ▸ hu)
    exact ⟨name, hname, variants, hvariants, rfl⟩
  · rintro ⟨name, hname, variants, hvariants, rfl⟩
    refine mem_words_seq_char.mpr ⟨name ++ variants, ?_, rfl⟩
    exact hsplit ▸ Language.append_mem_mul hname hvariants

theorem head_of_variants {w : List Char} (h : w ∈ (star dottedWord).words) :
    ∀ c ∈ w.head?, c = '.' := by
  intro c hc
  obtain ⟨rounds, rfl, hrounds⟩ := Language.mem_kstar.mp h
  cases rounds with
  | nil => cases hc
  | cons u rounds =>
      obtain ⟨v, _, rfl⟩ := mem_words_seq_char.mp (hrounds u List.mem_cons_self)
      exact (Option.some.inj hc).symm

/-- The longest directive takes the whole word after its sign. -/
theorem name_of_longestWord {rest w : List Char}
    (h : LongestWord directive.regex.words ('%' :: rest) w) :
    ∃ variants, w = '%' :: (Word.run rest ++ variants) ∧ Word.run rest ≠ [] ∧
      ∀ c ∈ variants.head?, c = '.' := by
  obtain ⟨name, hname, variants, hvariants, rfl⟩ := mem_words_directive.mp h.mem
  obtain ⟨tail, htail⟩ := h.starts
  obtain rfl : name ++ (variants ++ tail) = rest := by simpa using htail
  have hrun := Word.run_append_of_mem_words hname (variants ++ tail)
  have hne : Word.run (name ++ (variants ++ tail)) ≠ [] := by
    obtain ⟨c, more, _, _, rfl⟩ := mem_words_seq_oneOf.mp hname
    rw [hrun]
    exact List.cons_ne_nil _ _
  suffices hstop : (variants ++ tail).takeWhile Word.isContinue = [] by
    rw [hstop, List.append_nil] at hrun
    exact ⟨variants, by rw [hrun], hne, head_of_variants hvariants⟩
  cases variants with
  | cons c variants =>
      obtain rfl := head_of_variants hvariants c rfl
      rfl
  | nil =>
      -- With more of the word the directive would go on.
      refine h.eq_nil_of_append (mem_words_directive.mpr ⟨_, Word.run_mem_words hne, [],
        hvariants, ?_⟩) ?_
      · rw [hrun]
        simp
      · simpa using List.takeWhile_prefix _

end Words

theorem takesLongest_directive : directive.takesLongest = true := by
  decide +kernel

/-- Up to the dot after it, the name is what is looked up. -/
theorem isKnownDirective_append {name variants : List Char}
    (hname : ∀ c ∈ name, Word.isContinue c = true) (hdot : ∀ c ∈ variants.head?, c = '.') :
    Relevance.isKnownDirective ('%' :: (name ++ variants)) =
      Relevance.directives.contains name := by
  refine congrArg Relevance.directives.contains (Text.takeWhile_append_of_stop ?_ ?_)
  · intro c hc
    have hword := hname c hc
    rw [Bool.and_eq_true, bne_iff_ne, bne_iff_ne]
    constructor <;> rintro rfl <;> cases hword
  · cases variants with
    | nil => rfl
    | cons c variants =>
        obtain rfl := hdot c rfl
        rfl

def directiveRule : Rule := ⟨"directive", .expression directive false, .pragma, .stay⟩

def argsofRule : Rule := ⟨"argsof-open", .literal argsofOpen, .pragma, .push .annotationBlock⟩

/-- Where expressions are scanned, annotations are directives and openers of annotation blocks. -/
theorem annotation_rule {mode : Mode} (h : mode.scansExpressions = true) :
    ∀ rule ∈ rules mode, rule.kind = .pragma → rule = argsofRule ∨ rule = directiveRule := by
  cases mode with
  | topLevel | doubleInterpolation | singleInterpolation | braces =>
      simp [rules, interpolationRules, bracesRules, topLevelRules, argsofRule, directiveRule]
  | lineComment | blockComment | doubleString | singleString | annotationBlock => cases h

/-- The scan of the text stands at the token in this state. -/
def StartsAt (text : List Char) (t : Token) (s : Scanner) : Prop :=
  ∃ count, Scanner.after grammar text count = s ∧ s.offset = t.start

theorem StartsAt.unique {text : List Char} {t : Token} {s s' : Scanner} (h : StartsAt text t s)
    (h' : StartsAt text t s') : s = s' := by
  obtain ⟨_, rfl, hs⟩ := h
  obtain ⟨_, rfl, hs'⟩ := h'
  exact Scanner.after_eq_of_offset (hs.trans hs'.symm)

theorem startsAt_of_madeOf {text : List Char} {t : Token} {first run : List (Piece × Scanner)}
    (h : Token.MadeOf grammar text t first run) :
    StartsAt text t ((Scanner.start text).stateAfter first) := by
  refine ⟨first.length, h.after_length, ?_⟩
  rw [h.trace.1.offset_eq, h.start_eq]
  exact Nat.zero_add _

/-- An expression is scanned at the state, and there a percent sign stands before a known name. -/
def AtKnownDirective (s : Scanner) : Prop :=
  s.stack.top.mode.scansExpressions = true ∧
    ∃ rest, s.rest = '%' :: rest ∧ Word.run rest ∈ Relevance.directives

/-- What an annotation is that starts in a state. -/
inductive AnnotationAt (s : Scanner) (t : Token) : Prop where
  /-- A directive: a percent sign, a word, and further words after dots. -/
  | directive {rest : List Char} : s.stack.top.mode.scansExpressions = true →
      s.rest = '%' :: rest → LongestWord directive.regex.words s.rest t.text → AnnotationAt s t
  /-- An annotation block, closed or not. -/
  | block {inside : List Char} : s.stack.top.mode.scansExpressions = true →
      argsofOpen <+: s.rest → t.text = argsofOpen ++ inside → AnnotationAt s t
  /-- Doc tags in a line comment. -/
  | tags : s.stack.top.mode = .lineComment → IsDocTags t.text → AnnotationAt s t

section
variable {s u : Scanner} {p : Piece}

theorem take_longest_directive {text : List Char} {count : Nat}
    (h : directiveRule.pattern.matchCount? text = some count) :
    LongestWord directive.regex.words text (text.take count) ∧ ∃ rest, text = '%' :: rest := by
  obtain ⟨w, hw, rfl⟩ := (Pattern.matchCount?_longest takesLongest_directive).mp h
  rw [← List.prefix_iff_eq_take.mp hw.starts]
  refine ⟨hw, ?_⟩
  obtain ⟨name, _, variants, _, rfl⟩ := mem_words_directive.mp hw.mem
  obtain ⟨tail, rfl⟩ := hw.starts
  exact ⟨_, rfl⟩

/-- Where expressions are scanned, an annotation piece that opens no block is a whole token. -/
theorem annotationAt_of_expression {run : List (Piece × Scanner)} {t : Token}
    {front back : List Piece} (hx : s.stack.top.mode.scansExpressions = true)
    (hn : s.next? grammar = some (p, u)) (hk : p.token.kind = .pragma)
    (htext : t.text = Scanner.taken ((p, u) :: run))
    (hmax : Token.IsMaximalRun front (((p, u) :: run).map Prod.fst) back) :
    AnnotationAt s t := by
  obtain ⟨rule, hr, count, hm, rfl, rfl⟩ := exists_rule hn
  rw [Scanner.taken, List.flatMap_cons] at htext
  obtain rfl | rfl := annotation_rule hx rule hr hk
  · have hopen : s.rest.take count = argsofOpen := Pattern.take_of_literal hm
    refine .block hx ?_ (hopen ▸ htext)
    rw [← hopen]
    exact List.take_prefix _ _
  · obtain ⟨hlongest, rest, hrest⟩ := take_longest_directive hm
    have hnone : grammar.construct? s.stack .stay = none := by
      rw [Grammar.construct?_of_ne_push _ _ fun _ => Transition.noConfusion,
        not_encloses_of_expression hx]
      rfl
    obtain rfl := hmax.eq_nil (Token.not_joins_of_no_construct (.inr hk) hnone)
    rw [List.flatMap_nil, List.append_nil] at htext
    exact .directive hx hrest (htext ▸ hlongest)

/-- As long as annotations follow one another in a line comment, they are doc tags. -/
theorem isDocTag_of_trace {run : List (Piece × Scanner)} (h : Scanner.Trace grammar s run)
    (hm : s.stack.top.mode = .lineComment) (hk : ∀ step ∈ run, step.1.token.kind = .pragma) :
    ∀ step ∈ run, IsDocTag step.1.token.text := by
  induction h with
  | done => simp
  | @step s u p run hn _ ih =>
      obtain ⟨hp, hrun⟩ := List.forall_mem_cons.mp hk
      have hline : s.rest.head? ≠ some '\n' := by
        intro hbreak
        cases hp.symm.trans (next_at_lineBreak hm hn hbreak).1
      obtain ⟨hremark, hstack, _⟩ := next_in_line hm hn hline
      exact List.forall_mem_cons.mpr ⟨hremark.tag hp, ih (hstack ▸ hm) hrun⟩

theorem annotationAt_of_lineComment {run : List (Piece × Scanner)} {t : Token}
    {front back : List Piece} (hm : s.stack.top.mode = .lineComment)
    (h : Scanner.Trace grammar s ((p, u) :: run)) (hk : p.token.kind = .pragma)
    (htext : t.text = Scanner.taken ((p, u) :: run))
    (hmax : Token.IsMaximalRun front (((p, u) :: run).map Prod.fst) back) :
    AnnotationAt s t := by
  have hkinds : ∀ q ∈ ((p, u) :: run).map Prod.fst, q.token.kind = .pragma := fun q hq =>
    (Token.kind_of_isChain_joins hmax.joined q hq).trans hk
  have htags := isDocTags_of_pieces hmax.nonempty
    (List.forall_mem_map.mpr (isDocTag_of_trace h hm (List.forall_mem_map.mp hkinds)))
  rw [List.flatMap_map] at htags
  exact .tags hm (htext ▸ htags)

end

/-- Each annotation of a text is a directive, an annotation block, or doc tags. -/
theorem exists_annotationAt {text : List Char} {t : Token} (h : t ∈ Token.scan grammar text)
    (hk : t.kind = .pragma) : ∃ s, StartsAt text t s ∧ AnnotationAt s t := by
  obtain ⟨first, run, back, hsteps, hmade, hmax⟩ := Token.exists_madeOf h
  obtain ⟨⟨p, u⟩, rest, rfl, hp, _, htext⟩ := Token.exists_of_ofSteps hmade.2
  rw [hk] at hp
  obtain ⟨hfirst, hrun⟩ := hmade.trace
  refine ⟨_, startsAt_of_madeOf hmade, ?_⟩
  generalize hs : (Scanner.start text).stateAfter first = s at hrun
  have hn : s.next? grammar = some (p, u) := by
    cases hrun with
    | step hn _ => exact hn
  obtain ⟨kind, _, _, _, _, he, hpiece, _⟩ := exists_effect hn
  obtain rfl : TokenKind.pragma = kind := by rw [hp, hpiece]
  obtain hx | ⟨hleaf, _⟩ := he.remark (.inr rfl)
  · exact annotationAt_of_expression hx hn hp.symm htext hmax
  · cases hm : s.stack.top.mode with
    | lineComment => exact annotationAt_of_lineComment hm hrun hp.symm htext hmax
    | blockComment => cases (he.of_blockComment hm).1
    | annotationBlock =>
        -- The piece before is of the same block, and would be joined.
        obtain ⟨init, q, rfl, hqc, hkind⟩ := exists_before_leaf hfirst hs hleaf
        rw [hm] at hkind
        have hq : q.token.kind = .pragma := List.mem_singleton.mp hkind
        have hj := hmax.starts q (by simp) p rfl
        rw [Token.joins_of_construct (.inr hq) (hp.symm.trans hq.symm) hqc
          (construct_in_leaf hleaf hn)] at hj
        cases hj
    | _ =>
        rw [hm] at hleaf
        cases hleaf

theorem not_isKnownDirective_of_isDocTags {text : List Char} (h : IsDocTags text) :
    Relevance.isKnownDirective text = false := by
  obtain ⟨tags, hne, htags, rfl⟩ := h
  obtain ⟨tag, tags, rfl⟩ := List.exists_cons_of_ne_nil hne
  obtain ⟨name, _, rfl⟩ := htags tag List.mem_cons_self
  rfl

/-- Which annotations are distinctive, told by the state in which they start. -/
theorem AnnotationAt.isKnownDirective_iff {s : Scanner} {t : Token} (h : AnnotationAt s t) :
    Relevance.isKnownDirective t.text = true ↔ AtKnownDirective s := by
  cases h with
  | @directive rest hx hrest hlongest =>
      rw [hrest] at hlongest
      obtain ⟨variants, htext, hne, hdot⟩ := name_of_longestWord hlongest
      have hword : ∀ c ∈ Word.run rest, Word.isContinue c = true := by
        rw [Word.run_eq_takeWhile hne]
        exact fun c hc => List.mem_takeWhile_imp hc
      rw [htext, isKnownDirective_append hword hdot, List.contains_iff_mem]
      constructor
      · exact fun hname => ⟨hx, rest, hrest, hname⟩
      · rintro ⟨_, other, hother, hname⟩
        obtain rfl := (List.cons.inj (hrest.symm.trans hother)).2
        exact hname
  | @block inside hx hopen htext =>
      obtain ⟨rest, hrest⟩ := hopen
      have hrun : Word.run ("argsof(".toList ++ rest) = "argsof".toList := rfl
      have hknown : "argsof".toList ∈ Relevance.directives := by decide
      rw [htext]
      exact iff_of_true rfl ⟨hx, "argsof(".toList ++ rest, hrest.symm, hrun ▸ hknown⟩
  | tags hm htags =>
      rw [not_isKnownDirective_of_isDocTags htags]
      refine iff_of_false Bool.false_ne_true fun hdirective => ?_
      have hx := hdirective.1
      rw [hm] at hx
      cases hx

theorem evidence?_pragma {t : Token} (hk : t.kind = .pragma) : Relevance.evidence? t =
    if Relevance.isKnownDirective t.text then some (.distinctive 3) else none := by
  simp [Relevance.evidence?, hk]

/-- An annotation is distinctive exactly if it starts, in an expression, at a percent sign before a
known name. So annotation blocks are, and doc tags are not. -/
theorem annotation_evidence {text : List Char} {t : Token} (h : t ∈ Token.scan grammar text)
    (hk : t.kind = .pragma) :
    (Relevance.evidence? t = some (.distinctive 3) ∨ Relevance.evidence? t = none) ∧
      (Relevance.evidence? t = some (.distinctive 3) ↔
        ∃ s, StartsAt text t s ∧ AtKnownDirective s) ∧
      (∃ s, StartsAt text t s ∧ AnnotationAt s t) ∧
      (argsofOpen <+: t.text → Relevance.evidence? t = some (.distinctive 3)) ∧
      (IsDocTags t.text → Relevance.evidence? t = none) := by
  obtain ⟨s, hstarts, hat⟩ := exists_annotationAt h hk
  have hknown : Relevance.evidence? t = some (.distinctive 3) ↔
      Relevance.isKnownDirective t.text = true := by
    rw [evidence?_pragma hk]
    simp
  refine ⟨?_, ?_, ⟨s, hstarts, hat⟩, fun hopen => ?_, fun htags => ?_⟩
  · rw [evidence?_pragma hk]
    split
    · exact .inl rfl
    · exact .inr rfl
  · rw [hknown, hat.isKnownDirective_iff]
    constructor
    · exact fun hdirective => ⟨s, hstarts, hdirective⟩
    · rintro ⟨s', hstarts', hdirective⟩
      rwa [hstarts.unique hstarts']
  · obtain ⟨inside, hinside⟩ := hopen
    rw [hknown, ← hinside]
    rfl
  · rw [evidence?_pragma hk, not_isKnownDirective_of_isDocTags htags]
    rfl

theorem variant_in_hole :
    Relevance.evidence? ⟨.pragma, 3, "%mp3.vbr".toList⟩ = some (.distinctive 3) ∧
      ∃ s, StartsAt "\"#\x7b%mp3.vbr\x7d\"".toList ⟨.pragma, 3, "%mp3.vbr".toList⟩ s ∧
        AtKnownDirective s := by
  have hscan : (⟨.pragma, 3, "%mp3.vbr".toList⟩ : Token) ∈
      Token.scan grammar "\"#\x7b%mp3.vbr\x7d\"".toList := by
    decide +kernel
  have hdistinctive :
      Relevance.evidence? ⟨.pragma, 3, "%mp3.vbr".toList⟩ = some (.distinctive 3) := by
    decide
  exact ⟨hdistinctive, (annotation_evidence hscan rfl).2.1.mp hdistinctive⟩

end Liquidsoap
end LiquidsoapHighlight
