import LiquidsoapHighlight.Terminal.Style

/-!
A fatal error as the user sees it: a headline, its causes, and a hint where one is known.
-/

namespace LiquidsoapHighlight

structure Report where
  headline : List Char
  causes : List (List Char)
  help : Option (List Char)
  deriving DecidableEq

namespace Report

def occursIn (part : List Char) : List Char → Bool
  | [] => part.isEmpty
  | c :: rest => part.isPrefixOf (c :: rest) || occursIn part rest

def configHelp : List Char := "Run `liqhl init` to write a fresh .liqhlrc".toList

/-- A headline about a config file comes with a hint. -/
def help? (headline : List Char) : Option (List Char) :=
  if occursIn "config file".toList headline then some configHelp else none

/-- The report of an error whose messages are given from the outermost to the innermost. -/
def ofChain : List (List Char) → Report
  | [] => ⟨[], [], help? []⟩
  | headline :: causes => ⟨headline, causes, help? headline⟩

def headlineText (colors : Bool) (headline : List Char) : List Char :=
  Terminal.paint colors ⟨[.bold], some .red⟩ "error:".toList ++ [' '] ++
    Terminal.paint colors ⟨[.bold], none⟩ headline

def causeText (colors : Bool) (cause : List Char) : List Char :=
  "  ".toList ++ Terminal.paint colors (.ofColor .yellow) "caused by:".toList ++ [' '] ++ cause

def helpText (colors : Bool) (help : List Char) : List Char :=
  Terminal.paint colors ⟨[.bold], some .cyan⟩ "help:".toList ++ [' '] ++ help

/-- The parts of a report, each on lines of its own; an empty line stands before the hint. -/
def lines (colors : Bool) (r : Report) : List (List Char) :=
  headlineText colors r.headline :: r.causes.map (causeText colors) ++
    match r.help with
    | some help => [[], helpText colors help]
    | none => []

end Report
end LiquidsoapHighlight
