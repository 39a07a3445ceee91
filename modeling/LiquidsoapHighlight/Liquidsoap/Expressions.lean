import LiquidsoapHighlight.Pattern

/-!
The regular expressions of the Liquidsoap grammar. Each is given by its structure, together with the
text that reads as it.
-/

namespace LiquidsoapHighlight
namespace Liquidsoap

open Regex

def digit : CharClass := .ofRanges [('0', '9')]

def digitOrUnderscore : CharClass := .ofRanges [('0', '9'), ('_', '_')]

def wordStart : CharClass := .ofRanges [('A', 'Z'), ('_', '_'), ('a', 'z')]

def wordContinue : CharClass := .ofRanges [('0', '9'), ('A', 'Z'), ('_', '_'), ('a', 'z')]

/-- One or more characters, none of them in a range. -/
def allBut (ranges : List (Char × Char)) : Regex :=
  plus (oneOf (CharClass.ofRanges ranges).complement)

def whitespace : WrittenRegex :=
  ⟨"\\s+".toList, plus (oneOf ⟨false, Text.blank⟩), rfl⟩

def word : Regex := seq (oneOf wordStart) (star (oneOf wordContinue))

def identifier : WrittenRegex :=
  ⟨"[A-Za-z_][A-Za-z0-9_]*".toList, word, rfl⟩

def durationUnit : Regex := choice (text ['m', 's']) (['w', 'd', 'h', 'm', 's'].map char)

def duration : WrittenRegex :=
  ⟨"(?:[0-9]+(?:ms|w|d|h|m|s))+".toList, plus (seq (plus (oneOf digit)) durationUnit), rfl⟩

/-- A zero, a letter for the base, a digit of the base, and further digits or underscores. -/
def radix (letters : List Char) (first further : CharClass) : Regex :=
  sequence [char '0', oneOf (.ofChars letters), oneOf first, star (oneOf further)]

def hexNumber : WrittenRegex :=
  ⟨"0[xX][0-9a-fA-F][0-9a-fA-F_]*".toList,
    radix ['X', 'x'] (.ofRanges [('0', '9'), ('A', 'F'), ('a', 'f')])
      (.ofRanges [('0', '9'), ('A', 'F'), ('_', '_'), ('a', 'f')]), rfl⟩

def octalNumber : WrittenRegex :=
  ⟨"0[oO][0-7][0-7_]*".toList,
    radix ['O', 'o'] (.ofRanges [('0', '7')]) (.ofRanges [('0', '7'), ('_', '_')]), rfl⟩

def binaryNumber : WrittenRegex :=
  ⟨"0[bB][01][01_]*".toList,
    radix ['B', 'b'] (.ofRanges [('0', '1')]) (.ofRanges [('0', '1'), ('_', '_')]), rfl⟩

def integer : Regex := seq (oneOf digit) (star (oneOf digitOrUnderscore))

def exponent : Regex :=
  sequence [oneOf (.ofChars ['E', 'e']), opt (oneOf (.ofChars ['+', '-'])), plus (oneOf digit)]

def floatNumber : WrittenRegex :=
  ⟨"[0-9][0-9_]*(?:\\.[0-9_]*(?:[eE][+-]?[0-9]+)?|[eE][+-]?[0-9]+)".toList,
    sequence [oneOf digit, star (oneOf digitOrUnderscore),
      alt (sequence [char '.', star (oneOf digitOrUnderscore), opt exponent]) exponent], rfl⟩

def integerNumber : WrittenRegex :=
  ⟨"[0-9][0-9_]*".toList, integer, rfl⟩

/-- One character of a regular expression literal, or an escaped one. -/
def regexpItem : Regex :=
  alt (oneOf (CharClass.ofChars ['\n', '/', '\\']).complement)
    (seq (char '\\') (oneOf (CharClass.ofChars ['\n']).complement))

def regexp : WrittenRegex :=
  ⟨"r/(?:[^/\\\\\\n]|\\\\.)+/[gimsu]*".toList,
    sequence [char 'r', char '/', plus regexpItem, char '/',
      star (oneOf (.ofChars ['g', 'i', 'm', 's', 'u']))], rfl⟩

/-- Preprocessor directives and encoder formats. -/
def directive : WrittenRegex :=
  ⟨"%[A-Za-z_][A-Za-z0-9_]*(?:\\.[A-Za-z_][A-Za-z0-9_]*)*".toList,
    sequence [char '%', oneOf wordStart, star (oneOf wordContinue),
      star (sequence [char '.', oneOf wordStart, star (oneOf wordContinue)])], rfl⟩

def docTag : WrittenRegex :=
  ⟨"@(?:argsof|category|docof|flag|method|param)\\b".toList,
    sequence [char '@',
      choice (text "argsof".toList)
        (["category", "docof", "flag", "method", "param"].map fun name => text name.toList),
      boundary], rfl⟩

/-- A backslash and the character after it, a newline included. -/
def escape : WrittenRegex :=
  ⟨"\\\\(?s:.)".toList, seq (char '\\') (oneOf .any), rfl⟩

def doubleStringBody : WrittenRegex :=
  ⟨"[^\"\\\\#]+".toList, allBut [('"', '#'), ('\\', '\\')], rfl⟩

def singleStringBody : WrittenRegex :=
  ⟨"[^'\\\\#]+".toList, allBut [('#', '#'), ('\'', '\''), ('\\', '\\')], rfl⟩

def lineCommentText : WrittenRegex :=
  ⟨"[^\\n@]+".toList, allBut [('\n', '\n'), ('@', '@')], rfl⟩

def blockCommentText : WrittenRegex :=
  ⟨"[^#>]+".toList, allBut [('#', '#'), ('>', '>')], rfl⟩

def annotationText : WrittenRegex :=
  ⟨"[^()]+".toList, allBut [('(', ')')], rfl⟩

end Liquidsoap
end LiquidsoapHighlight
