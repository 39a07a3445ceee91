import LiquidsoapHighlight.CommandLine.Run
import LiquidsoapHighlight.Proofs.Liquidsoap.LastLine
import LiquidsoapHighlight.Proofs.Markup.Decoding
import LiquidsoapHighlight.Proofs.Terminal.Sequences
import LiquidsoapHighlight.Proofs.Text.Decoding

/-!
What is printed of a highlighted script. Without colors it is the script itself, with a line break
at its end; colors and markup show the same, but for the line break of a script that ends inside of
a construct.
-/

namespace LiquidsoapHighlight

namespace Terminal

theorem getLast?_sequence (codes : List Nat) : (sequence codes).getLast? = some 'm' :=
  List.getLast?_concat

/-- Only text in no style ends as it does by itself. -/
theorem getLast?_paint {text : List Char} (hne : text ≠ []) (hesc : '\x1b' ∉ text) (style : Style) :
    paint true style text ≠ [] ∧ ((paint true style text).getLast? = some '\n' ↔
      style = .plain ∧ text.getLast? = some '\n') := by
  rw [paint_eq hesc]
  split
  · next hs => exact ⟨hne, by simp [hs]⟩
  · next hs =>
      have hclear : clear ≠ [] := List.append_ne_nil_of_right_ne_nil _ (List.cons_ne_nil _ _)
      refine ⟨List.append_ne_nil_of_right_ne_nil _ hclear, ?_⟩
      rw [List.getLast?_append_of_ne_nil _ hclear, clear, getLast?_sequence]
      simp [hs]

end Terminal

namespace Markup

theorem escapeChar_ne_nil (c : Char) : escapeChar c ≠ [] := by
  unfold escapeChar entity?
  split <;> exact List.cons_ne_nil _ _

theorem getLast?_escapeChar (c : Char) : (escapeChar c).getLast? = some '\n' ↔ c = '\n' := by
  unfold escapeChar entity?
  split
  · decide
  · decide
  · decide
  · decide
  · exact Option.some_inj

theorem getLast?_escape (text : List Char) :
    (escape text).getLast? = some '\n' ↔ text.getLast? = some '\n' := by
  rcases List.eq_nil_or_concat' text with rfl | ⟨front, c, rfl⟩
  · rfl
  · rw [escape_append, escape, escape, List.flatMap_singleton,
      List.getLast?_append_of_ne_nil _ (escapeChar_ne_nil c), getLast?_escapeChar,
      List.getLast?_concat, Option.some_inj]

/-- Only text in no span ends as it does by itself. -/
theorem getLast?_render (classPrefix : List Char) {token : Token} (hne : token.text ≠ []) :
    render classPrefix token ≠ [] ∧ ((render classPrefix token).getLast? = some '\n' ↔
      className? token.kind = none ∧ token.text.getLast? = some '\n') := by
  unfold render
  split
  · next className hclass =>
      have hclose : closeSpan ≠ [] := by decide
      have hlast : closeSpan.getLast? = some '>' := by decide
      refine ⟨List.append_ne_nil_of_right_ne_nil _ hclose, ?_⟩
      rw [List.getLast?_append_of_ne_nil _ hclose, hlast]
      simp [hclass]
  · next hnone =>
      refine ⟨escape_ne_nil hne, ?_⟩
      rw [getLast?_escape]
      simp [hnone]

end Markup

namespace CommandLine

/-- The line break that a text is printed with, where it does not end with one. -/
def missingBreak (text : List Char) : List Char :=
  if text.getLast? = some '\n' then [] else ['\n']

theorem endLine_eq (text : List Char) : endLine text = text ++ missingBreak text := by
  rw [endLine, missingBreak]
  split <;> simp

/-- The line break that is printed after the one with which a script ends inside a construct. -/
def extraBreak (text : List Char) : List Char :=
  if Liquidsoap.EndsInside text then ['\n'] else []

theorem missingBreak_of_iff {text shown : List Char}
    (h : shown.getLast? = some '\n' ↔ text.getLast? = some '\n' ∧ ¬ Liquidsoap.EndsInside text) :
    missingBreak shown = missingBreak text ++ extraBreak text := by
  simp only [missingBreak, extraBreak, h]
  by_cases hinside : Liquidsoap.EndsInside text
  · simp [hinside, hinside.1]
  · simp [hinside]

theorem visible_breaks (text : List Char) :
    Terminal.withoutSequences (missingBreak text ++ extraBreak text) =
        missingBreak text ++ extraBreak text ∧
      Markup.visibleText (missingBreak text ++ extraBreak text) =
        missingBreak text ++ extraBreak text := by
  unfold missingBreak extraBreak
  split <;> split <;> exact ⟨rfl, rfl⟩

theorem getLast?_paintAll {text : List Char} (hesc : '\x1b' ∉ text) :
    (Terminal.paintAll true (Token.scan Liquidsoap.grammar text)).getLast? = some '\n' ↔
      text.getLast? = some '\n' ∧ ¬ Liquidsoap.EndsInside text := by
  obtain ⟨hplaced, htexts⟩ := Scanner.placed_scan Liquidsoap.grammar text
  refine Liquidsoap.getLast?_written (fun kind => Terminal.theme kind = .plain) ?_ rfl
    (by decide)
  intro t ht
  obtain ⟨hne, front, back, htext, _⟩ := hplaced.exists_around ht
  refine Terminal.getLast?_paint hne (fun hmem => hesc ?_) _
  rw [← htexts, htext]
  exact List.mem_append_left _ (List.mem_append_right _ hmem)

theorem getLast?_renderAll (classPrefix text : List Char) :
    (Markup.renderAll classPrefix (Token.scan Liquidsoap.grammar text)).getLast? = some '\n' ↔
      text.getLast? = some '\n' ∧ ¬ Liquidsoap.EndsInside text := by
  have hplaced := (Scanner.placed_scan Liquidsoap.grammar text).1
  refine Liquidsoap.getLast?_written (fun kind => Markup.className? kind = none) ?_ rfl
    (by decide)
  exact fun t ht => Markup.getLast?_render classPrefix (hplaced.exists_around ht).1

/-- Without its escape sequences, a text in colors is as it is printed without colors. -/
theorem withoutSequences_endLine {text : List Char} (hesc : '\x1b' ∉ text) :
    Terminal.withoutSequences
        (endLine (Terminal.paintAll true (Token.scan Liquidsoap.grammar text))) =
      endLine text ++ extraBreak text := by
  have htexts := (Scanner.placed_scan Liquidsoap.grammar text).2
  have hesc' : '\x1b' ∉ Token.texts (Token.scan Liquidsoap.grammar text) := by rwa [htexts]
  rw [endLine_eq, Terminal.withoutSequences_paintAll hesc', htexts,
    missingBreak_of_iff (getLast?_paintAll hesc), (visible_breaks text).1, endLine_eq,
    List.append_assoc]

/-- So is a text in markup, without its tags and entities. -/
theorem visibleText_endLine (classPrefix text : List Char) :
    Markup.visibleText
        (endLine (Markup.renderAll classPrefix (Token.scan Liquidsoap.grammar text))) =
      endLine text ++ extraBreak text := by
  have htexts := (Scanner.placed_scan Liquidsoap.grammar text).2
  rw [endLine_eq, Markup.visibleText_renderAll, htexts,
    missingBreak_of_iff (getLast?_renderAll classPrefix text), (visible_breaks text).2, endLine_eq,
    List.append_assoc]

theorem Outcome.text_of_ok {o : Outcome} {product : Product} (h : o.result = .ok product) :
    o.text = product.text := by
  rw [Outcome.text, h]

/-- A run that highlights a text under some settings: the settings are in effect, the language is
known, and the script can be read. -/
structure Highlights (s : Surroundings) (i : Invocation) (config : Config) (text : List Char) :
    Prop where
  settings : ∃ path, effectiveConfig s.files i = .ok (config, path)
  script : ∃ file language notes, i.command = .highlight file language ∧
    (Language.find? language).isSome ∧ readScript s file = .ok ⟨text, notes⟩

/-- The text of a script is what its bytes are decoded to. -/
theorem exists_readScript {s : Surroundings} {file : Path} {bytes : List UInt8}
    (h : (if isStdin file then .ok s.stdin else s.files.content file) = Except.ok bytes) :
    ∃ notes, readScript s file = .ok ⟨Utf8.decodeLossy bytes, notes⟩ := by
  rw [readScript, h]
  exact ⟨_, rfl⟩

theorem eq_liquidsoap {name : List Char} {language : Language}
    (h : Language.find? name = some language) : language = .liquidsoap :=
  (Option.some.inj (Option.ite_none_right_eq_some.mp h).2).symm

/-- Such a run succeeds, and prints the tokens of the text in the format of the settings. -/
theorem Highlights.exists_product {s : Surroundings} {i : Invocation} {config : Config}
    {text : List Char} (h : Highlights s i config text) :
    ∃ product, (run s i).result = .ok product ∧
      product.text = endLine (rendered (s.colors && config.colored) config
        (Language.liquidsoap.highlight text)) := by
  obtain ⟨⟨path, hconfig⟩, file, name, notes, hcommand, hknown, hscript⟩ := h
  obtain ⟨language, hlanguage⟩ := Option.isSome_iff_exists.mp hknown
  obtain rfl := eq_liquidsoap hlanguage
  simp only [run, hconfig, hcommand, runCommand, runHighlight, hlanguage, hscript]
  exact ⟨_, rfl, rfl⟩

/-- The output for a text, in a format and with or without colors, of a run that highlights it. -/
def Prints (text : List Char) (format : OutputFormat) (colors : Bool) (output : List Char) :
    Prop :=
  ∃ s i config, Highlights s i config text ∧ config.format = format ∧
    (s.colors && config.colored) = colors ∧ (run s i).text = output

theorem Prints.output_eq {text output : List Char} {format : OutputFormat} {colors : Bool}
    (h : Prints text format colors output) :
    ∃ config, config.format = format ∧
      output = endLine (rendered colors config (Language.liquidsoap.highlight text)) := by
  obtain ⟨s, i, config, hrun, hformat, rfl, rfl⟩ := h
  obtain ⟨product, hresult, htext⟩ := hrun.exists_product
  exact ⟨config, hformat, (Outcome.text_of_ok hresult).trans htext⟩

theorem Prints.plain {text output : List Char} (h : Prints text .ansi false output) :
    output = endLine text := by
  obtain ⟨config, hformat, rfl⟩ := h.output_eq
  have htexts := (Scanner.placed_scan Liquidsoap.grammar text).2
  rw [rendered, hformat]
  exact congrArg endLine ((Terminal.paintAll_false _).trans htexts)

theorem Prints.styled {text output : List Char} (h : Prints text .ansi true output) :
    output = endLine (Terminal.paintAll true (Token.scan Liquidsoap.grammar text)) := by
  obtain ⟨config, hformat, rfl⟩ := h.output_eq
  rw [rendered, hformat]
  rfl

theorem Prints.markup {text output : List Char} {colors : Bool}
    (h : Prints text .markup colors output) :
    ∃ classPrefix, output =
      endLine (Markup.renderAll classPrefix (Token.scan Liquidsoap.grammar text)) := by
  obtain ⟨config, hformat, rfl⟩ := h.output_eq
  refine ⟨config.classPrefix, ?_⟩
  rw [rendered, hformat]
  rfl

/-- What is printed of a text on the standard input, in an empty directory. -/
def printedInput (format : OutputFormat) (colors : Bool) (text : List Char) : List Char :=
  (runIn [] (Utf8.encode text) colors
    ⟨.highlight ['-'] "liq".toList, none, ⟨none, none, some format, none⟩⟩).text

/-- A text can be printed in each format, with colors and without. -/
theorem prints_printedInput (format : OutputFormat) (colors : Bool) (text : List Char) :
    Prints text format colors (printedInput format colors text) := by
  let s : Surroundings := ⟨Directory.read [], Utf8.encode text, colors⟩
  let config : Config := { Config.default with format := format }
  have hbytes : (if isStdin ['-'] then .ok s.stdin else s.files.content ['-']) =
      Except.ok s.stdin := rfl
  obtain ⟨notes, hscript⟩ := exists_readScript hbytes
  rw [Utf8.decodeLossy_encode] at hscript
  have hrun : Highlights s ⟨.highlight ['-'] "liq".toList, none, ⟨none, none, some format, none⟩⟩
      config text := ⟨⟨none, rfl⟩, ['-'], "liq".toList, notes, rfl, rfl, hscript⟩
  exact ⟨s, _, config, hrun, rfl, Bool.and_true colors, rfl⟩

/-- Styling does not change what is shown of a text without escape characters, unless the text ends
with a line break inside a construct; then another line break is shown. -/
theorem styling_keeps_text {text plain styled marked : List Char} {colors : Bool}
    (hesc : '\x1b' ∉ text) (hplain : Prints text .ansi false plain)
    (hstyled : Prints text .ansi true styled) (hmarked : Prints text .markup colors marked) :
    (Terminal.withoutSequences styled = plain ∧ Markup.visibleText marked = plain ↔
        ¬ Liquidsoap.EndsInside text) ∧
      (Liquidsoap.EndsInside text → Terminal.withoutSequences styled = plain ++ ['\n'] ∧
        Markup.visibleText marked = plain ++ ['\n']) := by
  obtain rfl := hplain.plain
  obtain rfl := hstyled.styled
  obtain ⟨classPrefix, rfl⟩ := hmarked.markup
  rw [withoutSequences_endLine hesc, visibleText_endLine, extraBreak]
  by_cases hinside : Liquidsoap.EndsInside text
  · simp [hinside]
  · simp [hinside]

/-- A quote and a line break, which leave a string open. -/
def openQuote : List Char := ['"', '\n']

theorem openQuote_shows_another_line :
    '\x1b' ∉ openQuote ∧ Terminal.withoutSequences (printedInput .ansi true openQuote) ≠
        printedInput .ansi false openQuote ∧
      Markup.visibleText (printedInput .markup false openQuote) ≠
        printedInput .ansi false openQuote := by
  decide +kernel

theorem openQuote_keeps_text :
    Liquidsoap.EndsInside openQuote ∧
      Terminal.withoutSequences (printedInput .ansi true openQuote) =
        printedInput .ansi false openQuote ++ ['\n'] ∧
      Markup.visibleText (printedInput .markup false openQuote) =
        printedInput .ansi false openQuote ++ ['\n'] := by
  have hinside : Liquidsoap.EndsInside openQuote := by decide +kernel
  have hkeeps := styling_keeps_text (by decide) (prints_printedInput .ansi false openQuote)
    (prints_printedInput .ansi true openQuote) (prints_printedInput .markup false openQuote)
  exact ⟨hinside, hkeeps.2 hinside⟩

/-- Without colors a run echoes its script: the text that the bytes are read as in UTF-8, and a line
break if it does not end with one. -/
theorem uncolored_highlight_echoes {s : Surroundings} {args : List Argument} {i : Invocation}
    {file : Path} {language : List Char} {config : Config} {path : Option Path}
    {bytes : List UInt8} (hargs : Invocation.read args = .ok i)
    (hcommand : i.command = .highlight file language)
    (hlanguage : (Language.find? language).isSome)
    (hconfig : effectiveConfig s.files i = .ok (config, path)) (hformat : config.format = .ansi)
    (hcolors : (s.colors && config.colored) = false)
    (hbytes : (if isStdin file then .ok s.stdin else s.files.content file) = Except.ok bytes) :
    ∃ text outcome, (∀ t, Utf8.Reads bytes t ↔ t = text) ∧ answer s args = .ran outcome ∧
      (answer s args).status = 0 ∧
      outcome.text = text ++ (if text.getLast? = some '\n' then [] else ['\n']) := by
  obtain ⟨notes, hscript⟩ := exists_readScript hbytes
  have hrun : Highlights s i config (Utf8.decodeLossy bytes) :=
    ⟨⟨path, hconfig⟩, file, language, notes, hcommand, hlanguage, hscript⟩
  have hprints : Prints (Utf8.decodeLossy bytes) .ansi false (run s i).text :=
    ⟨s, i, config, hrun, hformat, hcolors, rfl⟩
  obtain ⟨product, hresult, _⟩ := hrun.exists_product
  have hanswer : answer s args = .ran (run s i) := by rw [answer, hargs]
  refine ⟨Utf8.decodeLossy bytes, run s i, fun _ => Utf8.reads_iff, hanswer, ?_, ?_⟩
  · rw [hanswer, Answer.status, hresult]
    rfl
  · rw [hprints.plain, endLine_eq]
    rfl

/-- A file in another encoding: `a` and the byte of an accented letter. -/
def latinDirectory : Directory := [("a.liq".toList, .file [0x61, 0xe9])]

theorem latin_script_echoes :
    ∃ text outcome, (∀ t, Utf8.Reads [0x61, 0xe9] t ↔ t = text) ∧
      answer ⟨latinDirectory.read, [], true⟩ ["--no-color".toList, "highlight".toList,
        "a.liq".toList] = .ran outcome ∧
      (answer ⟨latinDirectory.read, [], true⟩ ["--no-color".toList, "highlight".toList,
        "a.liq".toList]).status = 0 ∧
      outcome.text = text ++ (if text.getLast? = some '\n' then [] else ['\n']) :=
  uncolored_highlight_echoes rfl rfl rfl rfl rfl rfl rfl

end CommandLine
end LiquidsoapHighlight
