import LiquidsoapHighlight.Grammar.Basic
import LiquidsoapHighlight.Grammar.Error

/-!
Building a grammar from lists of rules. The rules are checked mode by mode in the order given, then
the grammar as a whole; the first defect found is the one reported.
-/

namespace LiquidsoapHighlight

/-- The rules given for a mode. -/
structure ModeDefinition where
  mode : Mode
  rules : List Rule

namespace Rule

def checkLength (mode : Mode) (rule : Rule) : Except GrammarError Unit :=
  match rule.pattern.minLength? with
  | some 0 => .error (.zeroLengthPattern mode rule.name)
  | none => .error (.unmatchablePattern mode rule.name)
  | some _ => .ok ()

/-- Each alternative is held against the ones before it, which are the first list. -/
def checkAlternatives (mode : Mode) (rule : Rule) :
    List (List Char) → List (List Char) → Except GrammarError Unit
  | _, [] => .ok ()
  | earlier, alternative :: rest =>
    match earlier.find? fun shadow => shadow.isPrefixOf alternative with
    | some shadow => .error (.shadowedAlternative mode rule.name alternative shadow)
    | none => checkAlternatives mode rule (earlier ++ [alternative]) rest

def checkWords (mode : Mode) (rule : Rule) : Except GrammarError Unit :=
  match rule.pattern with
  | .keywords words =>
    match words.find? fun word => !Word.isWord word with
    | some word => .error (.invalidKeyword mode rule.name word)
    | none => .ok ()
  | .oneOf alternatives => rule.checkAlternatives mode [] alternatives
  | _ => .ok ()

def check (mode : Mode) (rule : Rule) : Except GrammarError Unit := do
  rule.checkLength mode
  rule.checkWords mode

end Rule

namespace ModeDefinition

/-- No rule comes after one that catches everything. -/
def checkReachable (mode : Mode) : List Rule → Except GrammarError Unit
  | rule :: next :: rest =>
    if rule.pattern.isCatchAll then .error (.unreachableRule mode next.name)
    else checkReachable mode (next :: rest)
  | _ => .ok ()

/-- The last rule catches everything, and no rule before it does. -/
def checkCatchAll (mode : Mode) (rules : List Rule) : Except GrammarError Unit :=
  if rules.getLast?.any fun rule => rule.pattern.isCatchAll then checkReachable mode rules
  else .error (.missingCatchAll mode)

def check (definition : ModeDefinition) : Except GrammarError Unit := do
  definition.rules.forM (Rule.check definition.mode)
  checkCatchAll definition.mode definition.rules

end ModeDefinition

namespace Grammar

def empty : Grammar := ⟨fun _ => none⟩

def define (g : Grammar) (definition : ModeDefinition) : Grammar :=
  ⟨fun mode => if mode = definition.mode then some definition.rules else g.rules? mode⟩

/-- Adds checked definitions to a grammar. -/
def addAll (g : Grammar) : List ModeDefinition → Except GrammarError Grammar
  | [] => .ok g
  | definition :: rest => do
    definition.check
    if (g.rules? definition.mode).isSome then .error (.duplicateMode definition.mode)
    (g.define definition).addAll rest

def checkTarget (g : Grammar) (mode : Mode) (rule : Rule) : Except GrammarError Unit :=
  match rule.transition.target? with
  | some target =>
    if (g.rules? target).isSome then .ok () else .error (.undefinedMode mode rule.name target)
  | none => .ok ()

/-- A grammar has a top level, and every mode that a rule leads to. -/
def checkTargets (g : Grammar) : Except GrammarError Unit := do
  if (g.rules? .topLevel).isNone then .error .missingTopLevel
  Mode.all.forM fun mode => ((g.rules? mode).getD []).forM (g.checkTarget mode)

def build (definitions : List ModeDefinition) : Except GrammarError Grammar := do
  let g ← empty.addAll definitions
  g.checkTargets
  return g

end Grammar
end LiquidsoapHighlight
