/-!
The words and signs of Liquidsoap.
-/

namespace LiquidsoapHighlight
namespace Liquidsoap

def keywords : List (List Char) :=
  ["and", "begin", "catch", "def", "do", "done", "else", "elsif", "end", "finally", "for", "fun",
    "if", "in", "let", "mod", "not", "open", "or", "rec", "replaces", "then", "to", "try",
    "while"].map String.toList

def builtinTypes : List (List Char) :=
  ["active_source", "bool", "float", "format", "int", "request", "source", "string",
    "unit"].map String.toList

def booleans : List (List Char) :=
  ["true", "false"].map String.toList

/-- No operator comes after one that it starts with. -/
def operators : List (List Char) :=
  ["...", ":=", "::", "==", "!=", "<=", ">=", "->", "??", "?.", "+.", "-.", "*.", "/.", "=", "<",
    ">", "+", "-", "*", "/", "^", "!", "?", "~", "@", "|"].map String.toList

def punctuation : List (List Char) :=
  ["(", ")", "[", "]", "\x7b", "\x7d", ",", ";", ":", "."].map String.toList

def lineCommentOpen : List Char := "#".toList

def blockCommentOpen : List Char := "#<".toList

def blockCommentClose : List Char := ">#".toList

def interpolationOpen : List Char := "#\x7b".toList

def interpolationClose : List Char := "\x7d".toList

def argsofOpen : List Char := "%argsof(".toList

end Liquidsoap
end LiquidsoapHighlight
