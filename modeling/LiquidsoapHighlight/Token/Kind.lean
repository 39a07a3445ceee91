/-!
The kinds of lexical elements.
-/

namespace LiquidsoapHighlight

inductive TokenKind where
  | keyword
  | builtinType
  | identifier
  | operator
  | number
  | duration
  | boolean
  | string
  | interpolation
  | comment
  /-- A directive, an encoder format, a doc tag, or an annotation block. -/
  | pragma
  | punctuation
  | plain
  deriving DecidableEq

namespace TokenKind

def all : List TokenKind :=
  [keyword, builtinType, identifier, operator, number, duration, boolean, string, interpolation,
    comment, pragma, punctuation, plain]

def displayName : TokenKind → String
  | keyword => "keyword"
  | builtinType => "built-in type"
  | identifier => "identifier"
  | operator => "operator"
  | number => "number"
  | duration => "duration"
  | boolean => "boolean"
  | string => "string"
  | interpolation => "interpolation delimiter"
  | comment => "comment"
  | pragma => "annotation"
  | punctuation => "punctuation"
  | plain => "plain"

/-- Adjacent pieces of these kinds may form one token. -/
def coalesces : TokenKind → Bool
  | comment => true
  | pragma => true
  | plain => true
  | _ => false

theorem mem_all (kind : TokenKind) : kind ∈ all := by
  cases kind <;> decide

end TokenKind
end LiquidsoapHighlight
