import LiquidsoapHighlight.CommandLine.Invocation
import LiquidsoapHighlight.CommandLine.Log
import LiquidsoapHighlight.Config.Files
import LiquidsoapHighlight.Terminal.Listing

/-!
Running a command. A run only reads until it has all of its output, and then writes the config file,
if it has one to write, before it prints.
-/

namespace LiquidsoapHighlight
namespace CommandLine

/-- What a run finds around it: the files, its input, and whether its output may have colors. -/
structure Surroundings where
  files : Files
  stdin : List UInt8
  colors : Bool

/-- The output of a command, with the notes that it makes and a new config file to be written. -/
structure Product where
  text : List Char
  notes : List LogEntry
  written : Option (List UInt8)

/-- What a run leaves behind: its product or the reason why it fails, the notes that are shown, and
whether its report has colors. -/
structure Outcome where
  result : Except Failure Product
  log : List LogEntry
  colors : Bool

/-- The path of the standard input: a dash, whatever slashes and dots come after it. -/
def isStdin (file : Path) : Bool :=
  match file.names with
  | ['-'] :: rest => rest.all fun name => name = [] ∨ name = ['.']
  | _ => false

/-- The text of a script, with the notes on reading it. -/
structure Script where
  text : List Char
  notes : List LogEntry

/-- Reads a script. Bytes that are not UTF-8 are replaced. -/
def readScript (s : Surroundings) (file : Path) : Except Failure Script :=
  match if isStdin file then .ok s.stdin else s.files.content file with
  | .error e => .error (.unreadableScript file e)
  | .ok bytes =>
    let text := Utf8.decodeLossy bytes
    let warnings := if (Utf8.decode? bytes).isSome then [] else [.invalidUtf8 file]
    .ok ⟨text, warnings ++ [.readScript file (Text.byteLength text)]⟩

def endLine (text : List Char) : List Char :=
  if text.getLast? = some '\n' then text else text ++ ['\n']

/-- The mode and depth after a piece, as a raw listing shows them. -/
def stateColumn (colors : Bool) (stack : ModeStack) : List Char :=
  Terminal.paint colors ⟨[.dim], none⟩
    (['['] ++ stack.top.mode.name.toList ++ [' '] ++ Text.decimal stack.top.depth.toNat ++ [']'])

def rawListing (colors : Bool) (text : List Char) : List Char :=
  (Scanner.steps Liquidsoap.grammar text).flatMap fun (piece, state) =>
    Terminal.tokenLine colors piece.token ++ [' '] ++ stateColumn colors state.stack ++ ['\n']

def listing (colors : Bool) (tokens : List Token) : List Char :=
  tokens.flatMap fun token => Terminal.tokenLine colors token ++ ['\n']

def runTokens (s : Surroundings) (colors : Bool) (file : Path) (raw : Bool) :
    Except Failure Product := do
  let script ← readScript s file
  if raw then return ⟨rawListing colors script.text, script.notes, none⟩
  else
    let tokens := Token.scan Liquidsoap.grammar script.text
    return ⟨listing colors tokens, script.notes ++ [.scanned tokens.length], none⟩

/-- A highlighted text in the format of the settings. -/
def rendered (colors : Bool) (config : Config) (h : Highlight) : List Char :=
  match config.format with
  | .ansi => Terminal.paintAll colors h.tokens
  | .markup => h.toMarkup config.classPrefix

def runHighlight (s : Surroundings) (colors : Bool) (config : Config) (file : Path)
    (languageName : List Char) : Except Failure Product :=
  match Language.find? languageName with
  | none =>
    .error (.unknownLanguage languageName (Language.liquidsoap.id :: Language.liquidsoap.aliases))
  | some language => do
    let script ← readScript s file
    let h := language.highlight script.text
    return ⟨endLine (rendered colors config h),
      script.notes ++ [.highlighted h.language h.tokens.length h.relevance], none⟩

def verdict (colors : Bool) (relevance : UInt32) : List Char :=
  if Relevance.isLiquidsoap relevance then
    Terminal.paint colors ⟨[.bold], some .green⟩ Language.liquidsoap.id
  else
    Terminal.paint colors (.ofColor .yellow)
      ("not liquidsoap (below ".toList ++ Text.decimal Relevance.threshold.toNat ++ [')'])

def runScore (s : Surroundings) (colors : Bool) (file : Path) : Except Failure Product := do
  let script ← readScript s file
  let relevance := (Language.liquidsoap.highlight script.text).relevance
  let number := Terminal.paint colors ⟨[.bold], none⟩ (Text.decimal relevance.toNat)
  return ⟨number ++ [' '] ++ verdict colors relevance ++ ['\n'], script.notes, none⟩

/-- Has the defaults written to a config file, where nothing is found under its name. -/
def runInit (s : Surroundings) (colors : Bool) : Except Failure Product :=
  if s.files.isPresent Config.fileName then .error (.existingConfig Config.fileName)
  else
    let created := Terminal.paint colors ⟨[.bold], some .green⟩ "Created".toList
    .ok ⟨created ++ [' '] ++ Config.fileName ++ ['\n'], [], some Config.defaultContent⟩

def runCommand (s : Surroundings) (colors : Bool) (config : Config) :
    Command → Except Failure Product
  | .tokens file raw => runTokens s colors file raw
  | .highlight file language => runHighlight s colors config file language
  | .score file => runScore s colors file
  | .init => runInit s colors

/-- The settings of the config file that the invocation asks for, or of the one that is found. -/
def loadConfig (files : Files) (i : Invocation) : Except Failure (Config × Option Path) :=
  match i.configFile with
  | some path => (Config.load files path).map (·, some path)
  | none => Config.loadFound files

/-- The settings in effect, and the path of the config file. -/
def effectiveConfig (files : Files) (i : Invocation) :
    Except Failure (Config × Option Path) :=
  (loadConfig files i).map fun (config, path) => (config.override i.settings, path)

def configNote : Option Path → LogEntry
  | some path => .loadedConfig path
  | none => .noConfig

def shown (config : Config) (notes : List LogEntry) : List LogEntry :=
  notes.filter fun note => config.verbose || note.isWarning

/-- Runs a command in its surroundings. A failure to load the settings comes before they can turn
off colors or turn on notes. -/
def run (s : Surroundings) (i : Invocation) : Outcome :=
  match effectiveConfig s.files i with
  | .error failure => ⟨.error failure, [], s.colors⟩
  | .ok (config, path) =>
    let colors := s.colors && config.colored
    match runCommand s colors config i.command with
    | .error failure => ⟨.error failure, shown config [configNote path], colors⟩
    | .ok product =>
      ⟨.ok product, shown config (configNote path :: product.notes), colors⟩

namespace Outcome

def text (o : Outcome) : List Char :=
  match o.result with
  | .ok product => product.text
  | .error _ => []

/-- The lines that tell the user of a failure. -/
def report (o : Outcome) : List (List Char) :=
  match o.result with
  | .ok _ => []
  | .error failure => failure.report.lines o.colors

/-- The directory of a run after it, if the system lets the run write. -/
def directory (o : Outcome) (d : Directory) : Directory :=
  match o.result with
  | .ok ⟨_, _, some content⟩ => d.overwritten Config.fileName content
  | _ => d

end Outcome

/-- The script that a command reads. -/
def Command.script? : Command → Option Path
  | .tokens file _ => some file
  | .highlight file _ => some file
  | .score file => some file
  | .init => none

/-- The paths that a run may ask about. -/
def Invocation.paths (i : Invocation) : List Path :=
  i.configFile.elim (Config.candidates.map Config.here) (fun path => [path]) ++
    i.command.script?.toList ++ [Config.fileName]

/-- The paths that a run reads, the standard input left out. -/
def Invocation.reads (files : Files) (i : Invocation) : List Path :=
  (i.configFile.or (Config.find? files)).toList ++
    i.command.script?.toList.filter fun file => !isStdin file

def Invocation.readsStdin (i : Invocation) : Bool := i.command.script?.any isStdin

/-- A run in a directory. -/
def runIn (d : Directory) (stdin : List UInt8) (colors : Bool) (i : Invocation) : Outcome :=
  run ⟨d.read, stdin, colors⟩ i

/-- Everything that arguments may lead to. -/
inductive Answer where
  | misuse
  | help
  | version
  | ran (outcome : Outcome)

def Stop.toAnswer : Stop → Answer
  | misuse => .misuse
  | help => .help
  | version => .version

def answer (s : Surroundings) (args : List Argument) : Answer :=
  match Invocation.read args with
  | .error stop => stop.toAnswer
  | .ok i => .ran (run s i)

def versionLine : List Char := "liqhl 0.0.1\n".toList

namespace Answer

/-- The exit status. -/
def status : Answer → Nat
  | misuse => 2
  | help => 0
  | version => 0
  | ran outcome => if outcome.result.isOk then 0 else 1

end Answer
end CommandLine
end LiquidsoapHighlight
