import LiquidsoapHighlight.Mode.Basic

/-!
The defects that keep a list of rules from being a grammar.
-/

namespace LiquidsoapHighlight

inductive GrammarError where
  | zeroLengthPattern (mode : Mode) (rule : String)
  | unmatchablePattern (mode : Mode) (rule : String)
  | invalidKeyword (mode : Mode) (rule : String) (word : List Char)
  /-- The alternative comes after one that it starts with. -/
  | shadowedAlternative (mode : Mode) (rule : String) (alternative shadow : List Char)
  | unreachableRule (mode : Mode) (rule : String)
  | missingCatchAll (mode : Mode)
  | duplicateMode (mode : Mode)
  | undefinedMode (mode : Mode) (rule : String) (target : Mode)
  | missingTopLevel
  deriving DecidableEq

namespace GrammarError

def mode? : GrammarError → Option Mode
  | zeroLengthPattern mode _ => some mode
  | unmatchablePattern mode _ => some mode
  | invalidKeyword mode _ _ => some mode
  | shadowedAlternative mode _ _ _ => some mode
  | unreachableRule mode _ => some mode
  | missingCatchAll mode => some mode
  | duplicateMode mode => some mode
  | undefinedMode mode _ _ => some mode
  | missingTopLevel => none

def ruleIn (rule : String) (mode : Mode) : String :=
  "rule '" ++ rule ++ "' in mode " ++ mode.name

def message : GrammarError → String
  | zeroLengthPattern mode rule => ruleIn rule mode ++ " can match the empty string"
  | unmatchablePattern mode rule => ruleIn rule mode ++ " can never match"
  | invalidKeyword mode rule word =>
    ruleIn rule mode ++ " lists '" ++ String.ofList word ++ "', which is not an identifier"
  | shadowedAlternative mode rule alternative shadow =>
    ruleIn rule mode ++ ": '" ++ String.ofList alternative ++ "' is listed after its prefix '" ++
      String.ofList shadow ++ "' and can never match"
  | unreachableRule mode rule => ruleIn rule mode ++ " follows the catch-all rule"
  | missingCatchAll mode => "mode " ++ mode.name ++ " does not end with a catch-all rule"
  | duplicateMode mode => "mode " ++ mode.name ++ " is defined more than once"
  | undefinedMode mode rule target =>
    ruleIn rule mode ++ " transitions to undefined mode " ++ target.name
  | missingTopLevel => "grammar has no top-level mode"

end GrammarError
end LiquidsoapHighlight
