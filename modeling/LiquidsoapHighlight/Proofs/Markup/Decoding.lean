import LiquidsoapHighlight.Language
import LiquidsoapHighlight.Proofs.Token.Joining
import LiquidsoapHighlight.Proofs.Token.Placed

/-!
Reading markup back. Cut at its tags, it gives the tokens with their classes, whatever the texts and
the class prefix are; without its tags, it is the text.
-/

namespace LiquidsoapHighlight
namespace Markup

/-- Undoes the entities of a text. -/
def unescape : List Char → List Char
  | '&' :: 'a' :: 'm' :: 'p' :: ';' :: rest => '&' :: unescape rest
  | '&' :: 'l' :: 't' :: ';' :: rest => '<' :: unescape rest
  | '&' :: 'g' :: 't' :: ';' :: rest => '>' :: unescape rest
  | '&' :: 'q' :: 'u' :: 'o' :: 't' :: ';' :: rest => '"' :: unescape rest
  | c :: rest => c :: unescape rest
  | [] => []

/-- Markup cut at its tags: what stands before the first one, and what stands in each tag together
with what follows it. -/
structure Tagged where
  before : List Char
  tags : List (List Char × List Char)

def cut : List Char → Tagged
  | [] => ⟨[], []⟩
  | c :: rest =>
    if c = '<' then
      ⟨[], ((cut rest).before.takeWhile (· ≠ '>'), ((cut rest).before.dropWhile (· ≠ '>')).tail) ::
        (cut rest).tags⟩
    else ⟨c :: (cut rest).before, (cut rest).tags⟩

/-- The markup with all tags dropped. -/
def withoutTags (markup : List Char) : List Char :=
  (cut markup).before ++ (cut markup).tags.flatMap Prod.snd

/-- What a reader of the markup sees. -/
def visibleText (markup : List Char) : List Char := unescape (withoutTags markup)

/-- What stands in the opening tag of a span before the value of its class. -/
def spanOpener : List Char := "span class=\"".toList

/-- The class that an opening tag gives, without the prefix. Other tags give none. -/
def classOf? (classPrefix tag : List Char) : Option (List Char) :=
  if spanOpener.isPrefixOf tag then
    some ((unescape ((tag.drop spanOpener.length).takeWhile (· ≠ '"'))).drop classPrefix.length)
  else none

/-- The text between two spans, if there is any. -/
def unclassified (text : List Char) : List (Option (List Char) × List Char) :=
  if text = [] then [] else [(none, unescape text)]

/-- The texts of the markup, each with its class. -/
def decode (classPrefix markup : List Char) : List (Option (List Char) × List Char) :=
  unclassified (cut markup).before ++ (cut markup).tags.flatMap fun (tag, text) =>
    match classOf? classPrefix tag with
    | some className => [(some className, unescape text)]
    | none => unclassified text

theorem escape_cons (c : Char) (text : List Char) :
    escape (c :: text) = escapeChar c ++ escape text :=
  List.flatMap_cons

theorem escape_append (a b : List Char) : escape (a ++ b) = escape a ++ escape b :=
  List.flatMap_append

theorem unescape_cons {c : Char} (h : c ≠ '&') (rest : List Char) :
    unescape (c :: rest) = c :: unescape rest := by
  rw [unescape]
  all_goals
    intros
    simp_all

theorem unescape_escapeChar (c : Char) (rest : List Char) :
    unescape (escapeChar c ++ rest) = c :: unescape rest := by
  unfold escapeChar entity?
  split
  · rfl
  · rfl
  · rfl
  · rfl
  · next hamp _ _ _ => exact unescape_cons hamp rest

/-- An escaped text is read back, whatever follows it. -/
theorem unescape_escape_append (text rest : List Char) :
    unescape (escape text ++ rest) = text ++ unescape rest := by
  induction text with
  | nil => rfl
  | cons c text ih => rw [escape_cons, List.append_assoc, unescape_escapeChar, ih, List.cons_append]

theorem unescape_escape (text : List Char) : unescape (escape text) = text := by
  have h := unescape_escape_append text []
  rwa [List.append_nil, unescape, List.append_nil] at h

theorem unescape_of_not_mem {text : List Char} (h : '&' ∉ text) : unescape text = text := by
  induction text with
  | nil => rfl
  | cons c text ih =>
      obtain ⟨hc, htext⟩ := not_or.mp (mt List.mem_cons.mpr h)
      rw [unescape_cons (Ne.symm hc), ih htext]

/-- The signs of tags and of attribute values are not left in an escaped text. -/
theorem not_mem_escape {sign : Char} (h : sign = '<' ∨ sign = '>' ∨ sign = '"')
    (text : List Char) : sign ∉ escape text := by
  rw [escape, List.mem_flatMap]
  rintro ⟨c, _, hc⟩
  unfold escapeChar entity? at hc
  split at hc
  · obtain rfl | rfl | rfl := h <;> revert hc <;> decide
  · obtain rfl | rfl | rfl := h <;> revert hc <;> decide
  · obtain rfl | rfl | rfl := h <;> revert hc <;> decide
  · obtain rfl | rfl | rfl := h <;> revert hc <;> decide
  · next hlt hgt hquote =>
      obtain rfl := List.mem_singleton.mp hc
      obtain rfl | rfl | rfl := h
      · exact hlt rfl
      · exact hgt rfl
      · exact hquote rfl

theorem escape_ne_nil {text : List Char} (h : text ≠ []) : escape text ≠ [] := by
  intro hnil
  apply h
  rw [← unescape_escape text, hnil]
  rfl

/-- The names of classes are plain words. -/
theorem isAlpha_className {kind : TokenKind} {className : List Char}
    (h : className? kind = some className) : ∀ c ∈ className, c.isAlpha = true := by
  have hall : ((className? kind).all fun name => name.all Char.isAlpha) = true := by
    cases kind <;> decide
  rw [h] at hall
  exact List.all_eq_true.mp hall

theorem not_mem_className {kind : TokenKind} {className : List Char}
    (h : className? kind = some className) {c : Char} (hc : c.isAlpha = false) : c ∉ className := by
  intro hmem
  rw [isAlpha_className h c hmem] at hc
  cases hc

theorem className?_eq_none {kind : TokenKind} : className? kind = none ↔ kind = .plain := by
  cases kind <;> simp [className?]

theorem cut_append {text : List Char} (h : '<' ∉ text) (rest : List Char) :
    cut (text ++ rest) = ⟨text ++ (cut rest).before, (cut rest).tags⟩ := by
  induction text with
  | nil => rfl
  | cons c text ih =>
      obtain ⟨hc, htext⟩ := not_or.mp (mt List.mem_cons.mpr h)
      rw [List.cons_append, cut, if_neg (Ne.symm hc), ih htext]
      rfl

theorem cut_tag {tag : List Char} (hopen : '<' ∉ tag) (hclose : '>' ∉ tag) (rest : List Char) :
    cut ('<' :: (tag ++ '>' :: rest)) = ⟨[], (tag, (cut rest).before) :: (cut rest).tags⟩ := by
  have hrest : cut ('>' :: rest) = ⟨'>' :: (cut rest).before, (cut rest).tags⟩ := by
    rw [cut, if_neg (by decide)]
  have hall : ∀ c ∈ tag, decide (c ≠ '>') = true := by
    intro c hc
    exact decide_eq_true fun he => hclose (he ▸ hc)
  rw [cut, if_pos rfl, cut_append hopen, hrest, List.takeWhile_append_of_pos hall,
    List.dropWhile_append_of_pos hall]
  simp

/-- What stands in the opening tag of a span. -/
def spanTag (classPrefix className : List Char) : List Char :=
  spanOpener ++ escape classPrefix ++ className ++ ['"']

theorem openSpan_eq (classPrefix className : List Char) :
    openSpan classPrefix className = '<' :: (spanTag classPrefix className ++ ['>']) := by
  have hopener : "<span class=\"".toList = '<' :: spanOpener := by decide
  have hend : "\">".toList = ['"', '>'] := by decide
  calc openSpan classPrefix className
    _ = '<' :: spanOpener ++ escape classPrefix ++ className ++ ['"', '>'] :=
        congrArg₂ (· ++ ·) (congrArg (· ++ escape classPrefix ++ className) hopener) hend
    _ = '<' :: (spanTag classPrefix className ++ ['>']) := by simp [spanTag]

theorem closeSpan_eq : closeSpan = '<' :: ("/span".toList ++ ['>']) := by
  decide

theorem not_mem_spanTag {kind : TokenKind} {className : List Char}
    (h : className? kind = some className) (classPrefix : List Char) {sign : Char}
    (hsign : sign = '<' ∨ sign = '>') : sign ∉ spanTag classPrefix className := by
  simp only [spanTag, List.mem_append, not_or]
  refine ⟨⟨⟨?_, not_mem_escape (hsign.imp_right .inl) _⟩, not_mem_className h ?_⟩, ?_⟩
  · obtain rfl | rfl := hsign <;> decide
  · obtain rfl | rfl := hsign <;> rfl
  · obtain rfl | rfl := hsign <;> decide

/-- A span is cut into its two tags, with the escaped text between them. -/
theorem cut_span {kind : TokenKind} {className : List Char} (h : className? kind = some className)
    (classPrefix text rest : List Char) :
    cut (openSpan classPrefix className ++ escape text ++ closeSpan ++ rest) =
      ⟨[], (spanTag classPrefix className, escape text) :: ("/span".toList, (cut rest).before) ::
        (cut rest).tags⟩ := by
  have hopen := not_mem_spanTag h classPrefix (.inl rfl)
  have hclose := not_mem_spanTag h classPrefix (.inr rfl)
  have hspan : '<' ∉ "/span".toList ∧ '>' ∉ "/span".toList := by decide
  have hend := cut_tag hspan.1 hspan.2 rest
  have htext := cut_append (not_mem_escape (.inl rfl) text)
    ('<' :: ("/span".toList ++ '>' :: rest))
  have hstart := cut_tag hopen hclose (escape text ++ '<' :: ("/span".toList ++ '>' :: rest))
  rw [htext, hend, List.append_nil] at hstart
  rw [openSpan_eq, closeSpan_eq]
  simpa using hstart

theorem classOf?_spanTag {kind : TokenKind} {className : List Char}
    (h : className? kind = some className) (classPrefix : List Char) :
    classOf? classPrefix (spanTag classPrefix className) = some className := by
  have hvalue : '"' ∉ escape classPrefix ++ className := by
    rw [List.mem_append]
    exact not_or.mpr ⟨not_mem_escape (.inr (.inr rfl)) _, not_mem_className h rfl⟩
  have hall : ∀ c ∈ escape classPrefix ++ className, decide (c ≠ '"') = true := by
    intro c hc
    exact decide_eq_true fun he => hvalue (he ▸ hc)
  have hprefix : spanOpener.isPrefixOf (spanTag classPrefix className) = true := by
    rw [List.isPrefixOf_iff_prefix, spanTag, List.append_assoc, List.append_assoc]
    exact List.prefix_append _ _
  rw [classOf?, if_pos hprefix, spanTag, List.append_assoc, List.append_assoc, List.drop_left,
    ← List.append_assoc, List.takeWhile_append_of_pos hall, List.takeWhile_cons_of_neg (by simp),
    List.append_nil, unescape_escape_append, unescape_of_not_mem (not_mem_className h rfl),
    List.drop_left]

theorem withoutTags_append {text : List Char} (h : '<' ∉ text) (rest : List Char) :
    withoutTags (text ++ rest) = text ++ withoutTags rest := by
  rw [withoutTags, cut_append h, withoutTags, List.append_assoc]

theorem withoutTags_span {kind : TokenKind} {className : List Char}
    (h : className? kind = some className) (classPrefix text rest : List Char) :
    withoutTags (openSpan classPrefix className ++ escape text ++ closeSpan ++ rest) =
      escape text ++ withoutTags rest := by
  rw [withoutTags, cut_span h, withoutTags, List.nil_append, List.flatMap_cons, List.flatMap_cons]

theorem withoutTags_render (classPrefix : List Char) (token : Token) (rest : List Char) :
    withoutTags (render classPrefix token ++ rest) = escape token.text ++ withoutTags rest := by
  unfold render
  split
  · next className h => exact withoutTags_span h classPrefix token.text rest
  · exact withoutTags_append (not_mem_escape (.inl rfl) token.text) rest

/-- Dropping the tags leaves the escaped text of the tokens, and what follows them. -/
theorem withoutTags_renderAll (classPrefix : List Char) (tokens : List Token) (rest : List Char) :
    withoutTags (renderAll classPrefix tokens ++ rest) =
      escape (Token.texts tokens) ++ withoutTags rest := by
  induction tokens with
  | nil => rfl
  | cons t tokens ih =>
      rw [renderAll, List.flatMap_cons, List.append_assoc, withoutTags_render, ← renderAll, ih,
        Token.texts_cons, escape_append, List.append_assoc]

theorem visibleText_renderAll (classPrefix : List Char) (tokens : List Token) (rest : List Char) :
    visibleText (renderAll classPrefix tokens ++ rest) =
      Token.texts tokens ++ visibleText rest := by
  rw [visibleText, withoutTags_renderAll, unescape_escape_append, visibleText]

theorem decode_span {kind : TokenKind} {className : List Char}
    (h : className? kind = some className) (classPrefix text rest : List Char) :
    decode classPrefix (openSpan classPrefix className ++ escape text ++ closeSpan ++ rest) =
      (some className, text) :: decode classPrefix rest := by
  have hclose : classOf? classPrefix "/span".toList = none := rfl
  simp only [decode, cut_span h, List.flatMap_cons, classOf?_spanTag h, hclose, unescape_escape]
  rfl

/-- Text outside of spans is read up to the next span. -/
theorem decode_unclassified {text : List Char} (hne : text ≠ []) (classPrefix : List Char)
    {rest : List Char} (hrest : (cut rest).before = []) :
    decode classPrefix (escape text ++ rest) = (none, text) :: decode classPrefix rest := by
  simp only [decode, cut_append (not_mem_escape (.inl rfl) text), hrest, List.append_nil,
    unclassified, if_neg (escape_ne_nil hne), unescape_escape]
  rfl

theorem before_renderAll (classPrefix : List Char) {tokens : List Token}
    (h : ∀ t ∈ tokens.head?, t.kind ≠ .plain) :
    (cut (renderAll classPrefix tokens)).before = [] := by
  cases tokens with
  | nil => rfl
  | cons t tokens =>
      rw [renderAll, List.flatMap_cons, render]
      split
      · next className hclass => rw [cut_span hclass]
      · next hnone => exact absurd (className?_eq_none.mp hnone) (h t rfl)

/-- Tokens are read back one by one, if no plain one is empty or next to another. -/
theorem decode_renderAll (classPrefix : List Char) {tokens : List Token}
    (hne : ∀ t ∈ tokens, t.text ≠ []) (hapart : tokens.IsChain Token.Apart) :
    decode classPrefix (renderAll classPrefix tokens) =
      tokens.map fun t => (className? t.kind, t.text) := by
  induction tokens with
  | nil => rfl
  | cons t tokens ih =>
      obtain ⟨ht, htokens⟩ := List.forall_mem_cons.mp hne
      obtain ⟨hnext, hrest⟩ := List.isChain_cons.mp hapart
      rw [renderAll, List.flatMap_cons, render, List.map_cons, ← ih htokens hrest]
      cases hclass : className? t.kind with
      | some className => exact decode_span hclass classPrefix t.text _
      | none =>
          refine decode_unclassified ht classPrefix (before_renderAll classPrefix fun u hu => ?_)
          exact hnext u hu (className?_eq_none.mp hclass)

/-- The markup of a text can be read back with its class prefix, into the tokens of the text and
their classes; what it shows is the text. -/
theorem decode_toMarkup (text classPrefix : List Char) :
    decode classPrefix ((Language.liquidsoap.highlight text).toMarkup classPrefix) =
        (Token.scan Liquidsoap.grammar text).map (fun t => (className? t.kind, t.text)) ∧
      visibleText ((Language.liquidsoap.highlight text).toMarkup classPrefix) = text := by
  obtain ⟨hplaced, htexts⟩ := Scanner.placed_scan Liquidsoap.grammar text
  constructor
  · refine decode_renderAll classPrefix (fun t ht => ?_) (Token.isChain_coalesce _)
    exact (hplaced.exists_around ht).1
  · have h := visibleText_renderAll classPrefix (Token.scan Liquidsoap.grammar text) []
    rw [List.append_nil, htexts] at h
    exact h.trans (List.append_nil text)

end Markup
end LiquidsoapHighlight
