import LiquidsoapHighlight.Proofs.CommandLine.Changes
import LiquidsoapHighlight.Proofs.CommandLine.Highlighting
import LiquidsoapHighlight.Proofs.Terminal.Lines

/-!
What is printed of a script's tokens. Without colors a listing is safe to show on a terminal, and it
says all of the tokens: the script can be read back from it.
-/

namespace LiquidsoapHighlight
namespace CommandLine

open Terminal (Listed tokenLine readLine?)

theorem listing_eq (colors : Bool) (tokens : List Token) :
    listing colors tokens = (tokens.map (tokenLine colors)).flatMap (· ++ ['\n']) := by
  rw [listing, List.flatMap_map]

/-- The texts that are read from the lines of tokens are those of the tokens. -/
theorem texts_of_lines (tokens : List Token) :
    (tokens.map (tokenLine false)).flatMap (fun line => (readLine? line).elim [] Listed.text) =
      Token.texts tokens := by
  rw [List.flatMap_map, Token.texts]
  refine List.flatMap_congr fun t _ => ?_
  rw [Terminal.readLine?_tokenLine]
  rfl

/-- The lines tell all of the tokens of a script, one line each: where the token starts and stops,
its kind and its exact text. They have no control characters. -/
structure TellTokens (script : List Char) (lines : List (List Char)) : Prop where
  noControls : ∀ line ∈ lines, ∀ c ∈ line, Text.isControl c = false
  oneEach : lines.length = (Token.scan Liquidsoap.grammar script).length
  read : lines.map readLine? = (Token.scan Liquidsoap.grammar script).map (some ∘ Listed.of)
  texts : lines.flatMap (fun line => (readLine? line).elim [] Listed.text) = script

theorem tellTokens_scan (script : List Char) :
    TellTokens script ((Token.scan Liquidsoap.grammar script).map (tokenLine false)) where
  noControls := by
    intro line hline
    obtain ⟨t, _, rfl⟩ := List.mem_map.mp hline
    exact Terminal.not_isControl_tokenLine t
  oneEach := List.length_map _
  read := by
    rw [List.map_map]
    refine List.map_congr_left fun t _ => ?_
    rw [Function.comp_apply, Terminal.readLine?_tokenLine, Function.comp_apply]
  texts := by
    rw [texts_of_lines, (Scanner.placed_scan Liquidsoap.grammar script).2]

theorem runTokens_of_readScript {s : Surroundings} {file : Path} {script : Script}
    (hscript : readScript s file = .ok script) (colors : Bool) :
    ∃ notes, runTokens s colors file false =
      .ok ⟨listing colors (Token.scan Liquidsoap.grammar script.text), notes, none⟩ := by
  rw [runTokens, hscript]
  exact ⟨_, rfl⟩

/-- A run that lists the tokens of a script prints them under the settings in effect. -/
theorem run_tokens {s : Surroundings} {i : Invocation} {file : Path} {config : Config}
    {path : Option Path} {script : Script} (hcommand : i.command = .tokens file false)
    (hconfig : effectiveConfig s.files i = .ok (config, path))
    (hscript : readScript s file = .ok script) :
    ∃ product, (run s i).result = .ok product ∧ product.text =
      listing (s.colors && config.colored) (Token.scan Liquidsoap.grammar script.text) := by
  rw [run_result, hconfig, hcommand]
  obtain ⟨notes, ran⟩ := runTokens_of_readScript hscript (s.colors && config.colored)
  exact ⟨_, ran, rfl⟩

/-- Without colors, the tokens of a script are printed as lines that tell all of them. -/
theorem listing_tells_tokens {s : Surroundings} {args : List Argument} {i : Invocation}
    {file : Path} {config : Config} {path : Option Path} {bytes : List UInt8}
    (hargs : Invocation.read args = .ok i) (hcommand : i.command = .tokens file false)
    (hconfig : effectiveConfig s.files i = .ok (config, path))
    (hcolors : (s.colors && config.colored) = false)
    (hbytes : (if isStdin file then .ok s.stdin else s.files.content file) = Except.ok bytes) :
    ∃ script outcome lines, (∀ t, Utf8.Reads bytes t ↔ t = script) ∧
      answer s args = .ran outcome ∧ (answer s args).status = 0 ∧
      TellTokens script lines ∧ outcome.text = lines.flatMap (· ++ ['\n']) := by
  obtain ⟨notes, hscript⟩ := exists_readScript hbytes
  obtain ⟨product, hresult, htext⟩ := run_tokens hcommand hconfig hscript
  have hanswer : answer s args = .ran (run s i) := by rw [answer, hargs]
  refine ⟨Utf8.decodeLossy bytes, run s i, _, fun _ => Utf8.reads_iff, hanswer, ?_,
    tellTokens_scan (Utf8.decodeLossy bytes), ?_⟩
  · rw [hanswer, Outcome.status_of_ok hresult]
  · rw [Outcome.text_of_ok hresult, htext, hcolors, listing_eq]

/-- A string with a tab, a quote after a backslash, and what looks like an escape. -/
def escapes : List Char := "\"\t\\\"\\u\x7b9\x7d\"\n".toList

theorem escapes_listed :
    ∃ script outcome lines, (∀ t, Utf8.Reads (Utf8.encode escapes) t ↔ t = script) ∧
      answer ⟨Directory.read [], Utf8.encode escapes, true⟩
        ["--no-color".toList, "tokens".toList, "-".toList] = .ran outcome ∧
      (answer ⟨Directory.read [], Utf8.encode escapes, true⟩
        ["--no-color".toList, "tokens".toList, "-".toList]).status = 0 ∧
      TellTokens script lines ∧ outcome.text = lines.flatMap (· ++ ['\n']) :=
  listing_tells_tokens rfl rfl rfl rfl rfl

end CommandLine
end LiquidsoapHighlight
