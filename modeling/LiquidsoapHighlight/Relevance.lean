import LiquidsoapHighlight.Liquidsoap.Words
import LiquidsoapHighlight.Token.Basic

/-!
How far a text looks like Liquidsoap. Distinctive tokens occur in no other language. Supporting
tokens are shared with others, and count only next to at least one distinctive token.
-/

namespace LiquidsoapHighlight

inductive Evidence where
  | distinctive (weight : UInt32)
  | supporting (weight : UInt32)
  deriving DecidableEq

namespace Relevance

/-- A text with a lower score is not taken for Liquidsoap. -/
def threshold : UInt32 := 5

/-- Names of directives and encoders, without the percent sign and any variant. -/
def directives : List (List Char) :=
  ["argsof", "ifdef", "ifndef", "ifencoder", "ifnencoder", "ifversion", "endif", "include", "mp3",
    "ffmpeg", "wav", "ogg", "vorbis", "opus", "flac", "fdkaac", "shine", "speex", "theora",
    "external", "ndi", "avi"].map String.toList

def distinctiveNames : List (List Char × UInt32) :=
  [("liquidsoap".toList, 3), ("mksafe".toList, 3), ("icecast".toList, 2), ("harbor".toList, 2),
    ("crossfade".toList, 2)]

def supportingNames : List (List Char) :=
  ["playlist", "fallback", "amplify", "blank", "sine", "rotate", "output", "settings",
    "metadata"].map String.toList

def supportingKeywords : List (List Char) :=
  ["def", "elsif", "fun", "finally"].map String.toList

def supportingOperators : List (List Char) :=
  ["+.", "-.", "*.", "/.", "?.", "??", ":=", "::"].map String.toList

/-- A percent sign and a known name, up to the first dot or parenthesis. -/
def isKnownDirective : List Char → Bool
  | '%' :: rest => directives.contains (rest.takeWhile fun c => c != '.' && c != '(')
  | _ => false

/-- Opened and closed as a block comment. -/
def isClosedComment (text : List Char) : Bool :=
  Liquidsoap.blockCommentOpen.isPrefixOf text && Liquidsoap.blockCommentClose.isSuffixOf text

def supportingIf (condition : Bool) : Option Evidence :=
  if condition then some (.supporting 1) else none

def nameEvidence? (name : List Char) : Option Evidence :=
  match distinctiveNames.lookup name with
  | some weight => some (.distinctive weight)
  | none => supportingIf (supportingNames.contains name)

/-- What a token says about the language of its text. -/
def evidence? (token : Token) : Option Evidence :=
  match token.kind with
  | .duration => some (.distinctive 2)
  | .pragma => if isKnownDirective token.text then some (.distinctive 3) else none
  | .comment => if isClosedComment token.text then some (.distinctive 2) else none
  | .keyword =>
    if token.text = "replaces".toList then some (.distinctive 3)
    else supportingIf (supportingKeywords.contains token.text)
  | .operator => supportingIf (supportingOperators.contains token.text)
  | .interpolation => supportingIf (token.text == Liquidsoap.interpolationOpen)
  | .identifier => nameEvidence? token.text
  | _ => none

/-- The sum, or the greatest number where there is no room for it. -/
def addClamped (a b : UInt32) : UInt32 :=
  if a.toNat + b.toNat < UInt32.size then a + b else 4294967295

/-- The weights of both kinds that were seen. -/
structure Tally where
  distinctive : UInt32
  supporting : UInt32

namespace Tally

def empty : Tally := ⟨0, 0⟩

def add (t : Tally) : Option Evidence → Tally
  | some (.distinctive weight) => { t with distinctive := addClamped t.distinctive weight }
  | some (.supporting weight) => { t with supporting := addClamped t.supporting weight }
  | none => t

def score (t : Tally) : UInt32 :=
  if t.distinctive = 0 then 0 else addClamped t.distinctive t.supporting

end Tally

def tally (tokens : List Token) : Tally :=
  tokens.foldl (fun t token => t.add (evidence? token)) .empty

def score (tokens : List Token) : UInt32 := (tally tokens).score

def isLiquidsoap (score : UInt32) : Bool := threshold ≤ score

end Relevance
end LiquidsoapHighlight
