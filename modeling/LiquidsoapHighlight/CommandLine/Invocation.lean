import LiquidsoapHighlight.CommandLine.Options
import LiquidsoapHighlight.Config.Basic
import LiquidsoapHighlight.Files
import LiquidsoapHighlight.Language

/-!
Reading the arguments of the command line. Options may come before the command, if they apply to all
commands, or after it; those after it win. Arguments are read from left to right, and the first one
that asks for help or is out of place decides.
-/

namespace LiquidsoapHighlight
namespace CommandLine

inductive Command where
  | tokens (file : Path) (raw : Bool)
  | highlight (file : Path) (language : List Char)
  | score (file : Path)
  | init
  deriving DecidableEq

/-- A command with the settings that its options give. -/
structure Invocation where
  command : Command
  configFile : Option Path
  settings : ConfigOverride
  deriving DecidableEq

/-- The options and operands given so far, each at most once. -/
structure Given where
  verbose : Bool
  noColor : Bool
  raw : Bool
  config : Option Path
  format : Option OutputFormat
  classPrefix : Option (List Char)
  language : Option (List Char)
  file : Option Path
  deriving DecidableEq

/-- What ends the reading of arguments early. -/
inductive Stop where
  | misuse
  | help
  | version
  deriving DecidableEq

namespace Given

def nothing : Given := ⟨false, false, false, none, none, none, none, none⟩

def unlessSet {α : Type} (set : Bool) (value : α) : Except Stop α :=
  if set then .error .misuse else .ok value

def addFlag (g : Given) : OptionName → Except Stop Given
  | .verbose => unlessSet g.verbose { g with verbose := true }
  | .noColor => unlessSet g.noColor { g with noColor := true }
  | .raw => unlessSet g.raw { g with raw := true }
  | .help => .error .help
  | .version => .error .version
  | _ => .error .misuse

def addValue (g : Given) (option : OptionName) (value : Argument) : Except Stop Given :=
  match option with
  | .config => unlessSet (g.config.isSome || value.isEmpty) { g with config := some value }
  | .format =>
    match OutputFormat.ofName? value with
    | some format => unlessSet g.format.isSome { g with format := some format }
    | none => .error .misuse
  | .classPrefix => unlessSet g.classPrefix.isSome { g with classPrefix := some value }
  | .language => unlessSet g.language.isSome { g with language := some value }
  | _ => .error .misuse

/-- A file that is not named by an option. -/
def addFile (g : Given) (command : CommandName) (file : Argument) : Except Stop Given :=
  unlessSet (command = .init || g.file.isSome || file.isEmpty) { g with file := some file }

/-- The command with the options before it and after it. -/
def toInvocation (before after : Given) (command : CommandName) : Except Stop Invocation := do
  let onFile (make : Path → Command) : Except Stop Command :=
    match after.file with
    | some file => .ok (make file)
    | none => .error .misuse
  let command ←
    match command with
    | .tokens => onFile fun file => .tokens file after.raw
    | .highlight =>
      onFile fun file => .highlight file (after.language.getD Language.liquidsoap.id)
    | .score => onFile .score
    | .init => .ok .init
  return ⟨command, after.config.or before.config,
    ⟨if before.noColor || after.noColor then some false else none,
      if before.verbose || after.verbose then some true else none, after.format,
      after.classPrefix⟩⟩

end Given

/-- A run of options in one argument, each a single letter. A value takes the rest of the argument,
or else the next one. -/
def readShort (command : Option CommandName) :
    Given → List Char → Except Stop (Given × Option OptionName)
  | g, [] => .ok (g, none)
  | g, c :: rest =>
    match OptionName.ofShort? command c with
    | none => .error .misuse
    | some option =>
      if option.takesValue then
        match rest with
        | [] => .ok (g, some option)
        | '=' :: value => (g.addValue option value).map (·, none)
        | value => (g.addValue option value).map (·, none)
      else do readShort command (← g.addFlag option) rest

/-- An option by its long name, perhaps with a value after an equals sign. -/
def readLong (command : Option CommandName) (g : Given) (text : List Char) :
    Except Stop (Given × Option OptionName) :=
  match OptionName.ofLong? command (text.takeWhile (· ≠ '=')), text.dropWhile (· ≠ '=') with
  | none, _ => .error .misuse
  | some option, [] =>
    if option.takesValue then .ok (g, some option) else (g.addFlag option).map (·, none)
  | some option, _ :: value =>
    if option.takesValue then (g.addValue option value).map (·, none) else .error .misuse

/-- Reads the arguments after a command. An option may still wait for its value. -/
def readAfter (command : CommandName) :
    Given → Option OptionName → List Argument → Except Stop Given
  | g, none, [] => .ok g
  | _, some _, [] => .error .misuse
  | g, waiting, arg :: rest =>
    match arg, waiting with
    | ['-', '-'], none => rest.foldlM (fun g file => g.addFile command file) g
    | '-' :: '-' :: text, none => do
      let (g, waiting) ← readLong (some command) g text
      readAfter command g waiting rest
    | '-' :: c :: text, none => do
      let (g, waiting) ← readShort (some command) g (c :: text)
      readAfter command g waiting rest
    | '-' :: _ :: _, some _ => .error .misuse
    | value, some option => do readAfter command (← g.addValue option value) none rest
    | file, none => do readAfter command (← g.addFile command file) none rest

/-- Reads the arguments up to a command, and then those after it. -/
def readBefore : Given → Option OptionName → List Argument → Except Stop Invocation
  | _, _, [] => .error .misuse
  | g, waiting, arg :: rest =>
    match arg, waiting with
    | ['-', '-'], _ => .error .misuse
    | '-' :: '-' :: text, none => do
      let (g, waiting) ← readLong none g text
      readBefore g waiting rest
    | '-' :: c :: text, none => do
      let (g, waiting) ← readShort none g (c :: text)
      readBefore g waiting rest
    | '-' :: _ :: _, some _ => .error .misuse
    | value, some option => do readBefore (← g.addValue option value) none rest
    | name, none =>
      match CommandName.ofArgument? name with
      | some command => do
        let after ← readAfter command .nothing none rest
        g.toInvocation after command
      | none =>
        if name = helpCommand then
          match rest with
          | [] => .error .help
          | [topic] =>
            if (CommandName.ofArgument? topic).isSome || topic = helpCommand then .error .help
            else .error .misuse
          | _ => .error .misuse
        else .error .misuse

def Invocation.read (args : List Argument) : Except Stop Invocation :=
  readBefore .nothing none args

end CommandLine
end LiquidsoapHighlight
