import LiquidsoapHighlight.Grammar.Build
import LiquidsoapHighlight.Liquidsoap.Expressions
import LiquidsoapHighlight.Liquidsoap.Words

/-!
The lexical grammar of Liquidsoap. Strings, comments and argument annotations have modes of their
own. A hole in a string takes the rules of the top level after its own closing brace, so strings and
holes nest to any depth; a hole ends in the string that it was opened in.
-/

namespace LiquidsoapHighlight
namespace Liquidsoap

inductive Quote where
  | double
  | single
  deriving DecidableEq

namespace Quote

def char : Quote → Char
  | double => '"'
  | single => '\''

def body : Quote → WrittenRegex
  | double => doubleStringBody
  | single => singleStringBody

/-- The inside of a string with this quote. -/
def string : Quote → Mode
  | double => .doubleString
  | single => .singleString

/-- A hole in such a string. -/
def interpolation : Quote → Mode
  | double => .doubleInterpolation
  | single => .singleInterpolation

end Quote

def topLevelRules : List Rule := [
  ⟨"whitespace", .expression whitespace false, .plain, .stay⟩,
  ⟨"block-comment-open", .literal blockCommentOpen, .comment, .push .blockComment⟩,
  ⟨"line-comment-open", .literal lineCommentOpen, .comment, .push .lineComment⟩,
  ⟨"double-quote", .literal [Quote.double.char], .string, .push .doubleString⟩,
  ⟨"single-quote", .literal [Quote.single.char], .string, .push .singleString⟩,
  ⟨"argsof-open", .literal argsofOpen, .pragma, .push .annotationBlock⟩,
  ⟨"directive", .expression directive false, .pragma, .stay⟩,
  ⟨"regexp", .expression regexp false, .string, .stay⟩,
  ⟨"keyword", .keywords keywords, .keyword, .stay⟩,
  ⟨"boolean", .keywords booleans, .boolean, .stay⟩,
  ⟨"builtin-type", .keywords builtinTypes, .builtinType, .stay⟩,
  ⟨"duration", .expression duration true, .duration, .stay⟩,
  ⟨"hex", .expression hexNumber false, .number, .stay⟩,
  ⟨"octal", .expression octalNumber false, .number, .stay⟩,
  ⟨"binary", .expression binaryNumber false, .number, .stay⟩,
  ⟨"float", .expression floatNumber false, .number, .stay⟩,
  ⟨"integer", .expression integerNumber false, .number, .stay⟩,
  ⟨"operator", .oneOf operators, .operator, .stay⟩,
  ⟨"punctuation", .oneOf punctuation, .punctuation, .stay⟩,
  ⟨"identifier", .expression identifier false, .identifier, .stay⟩,
  ⟨"plain", .anyChar, .plain, .stay⟩]

def lineCommentRules : List Rule := [
  ⟨"doc-tag", .expression docTag false, .pragma, .stay⟩,
  ⟨"text", .expression lineCommentText false, .comment, .stay⟩,
  ⟨"newline", .literal ['\n'], .plain, .pop⟩,
  ⟨"other", .anyChar, .comment, .stay⟩]

def blockCommentRules : List Rule := [
  ⟨"nested-open", .literal blockCommentOpen, .comment, .nest⟩,
  ⟨"close", .literal blockCommentClose, .comment, .unnest⟩,
  ⟨"text", .expression blockCommentText false, .comment, .stay⟩,
  ⟨"other", .anyChar, .comment, .stay⟩]

def stringRules (quote : Quote) : List Rule := [
  ⟨"escape", .expression escape false, .string, .stay⟩,
  ⟨"interpolation-open", .literal interpolationOpen, .interpolation, .push quote.interpolation⟩,
  ⟨"close", .literal [quote.char], .string, .pop⟩,
  ⟨"body", .expression quote.body false, .string, .stay⟩,
  ⟨"other", .anyChar, .string, .stay⟩]

def interpolationRules (quote : Quote) : List Rule := [
  ⟨"interpolation-close", .literal interpolationClose, .interpolation, .popTo quote.string⟩,
  ⟨"brace-open", .literal ['{'], .punctuation, .push .braces⟩] ++ topLevelRules

def bracesRules : List Rule := [
  ⟨"brace-open", .literal ['{'], .punctuation, .push .braces⟩,
  ⟨"brace-close", .literal ['}'], .punctuation, .pop⟩] ++ topLevelRules

def annotationBlockRules : List Rule := [
  ⟨"nested-open", .literal ['('], .pragma, .nest⟩,
  ⟨"close", .literal [')'], .pragma, .unnest⟩,
  ⟨"text", .expression annotationText false, .pragma, .stay⟩,
  ⟨"other", .anyChar, .pragma, .stay⟩]

def rules : Mode → List Rule
  | .topLevel => topLevelRules
  | .lineComment => lineCommentRules
  | .blockComment => blockCommentRules
  | .doubleString => stringRules .double
  | .singleString => stringRules .single
  | .doubleInterpolation => interpolationRules .double
  | .singleInterpolation => interpolationRules .single
  | .braces => bracesRules
  | .annotationBlock => annotationBlockRules

/-- The rules of all modes, as a grammar is built from them. -/
def definitions : List ModeDefinition := Mode.all.map fun mode => ⟨mode, rules mode⟩

def grammar : Grammar := ⟨fun mode => some (rules mode)⟩

end Liquidsoap
end LiquidsoapHighlight
