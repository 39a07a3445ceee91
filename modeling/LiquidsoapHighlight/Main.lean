import LiquidsoapHighlight.CommandLine.Run

/-!
The program on the command line. It reads what a run may ask for, runs, and then writes and prints
what the run left behind.
-/

namespace LiquidsoapHighlight
namespace CommandLine

def usage : String :=
  "Liquidsoap syntax highlighter

Usage: liqhl [OPTIONS] <COMMAND>

Commands:
  tokens [--raw] <FILE>
  highlight [-f <FORMAT>] [--class-prefix <CLASS_PREFIX>] [-l <LANGUAGE>] <FILE>
  score <FILE>
  init
  help

Options:
  -v, --verbose
      --no-color
      --config <FILE>
  -h, --help
  -V, --version
"

/-- An error code of the system, in either sign. -/
def isCode (number code : UInt32) : Bool := code = number || code = 0 - number

def fileError : IO.Error → FileError
  | .noFileOrDirectory _ _ _ => .notFound
  | .inappropriateType _ code _ => if isCode 21 code then .isDirectory else .notDirectory
  | .invalidArgument _ code _ => if isCode 40 code then .tooManyLinks else .nameTooLong
  | e@(.permissionDenied _ code _) =>
    if isCode 13 code then .denied else .other (toString e).toList
  | e => .other (toString e).toList

def fileKind : IO.FS.FileType → FileKind
  | .file => .file
  | .dir => .directory
  | _ => .other

/-- What is at a path, at the end of its links. -/
def kindOf (path : Path) : IO (Path × Option FileKind) := do
  try
    let metadata ← (← IO.FS.realPath (String.ofList path)).metadata
    return (path, some (fileKind metadata.type))
  catch _ => return (path, none)

def readPath (path : Path) : IO (Path × Except FileError (List UInt8)) := do
  try
    let content ← IO.FS.readBinFile (String.ofList path)
    return (path, .ok content.toList)
  catch e => return (path, .error (fileError e))

/-- The environment may force colors or forbid them; else they are on for a terminal. -/
def wantsColors : IO Bool := do
  let isOn (name : String) : IO (Option Bool) := do
    return (← IO.getEnv name).map fun value => value != "0"
  if (← isOn "CLICOLOR_FORCE") = some true then return true
  if (← isOn "NO_COLOR").isSome then return false
  return (← isOn "CLICOLOR").getD true && (← (← IO.getStdout).isTty)

def surroundings (i : Invocation) : IO Surroundings := do
  let kinds ← i.paths.mapM kindOf
  let kind? (path : Path) := (kinds.lookup path).join
  let contents ← (i.reads ⟨kind?, fun _ => .error .notFound⟩).mapM readPath
  let content (path : Path) := (contents.lookup path).getD (.error .notFound)
  let stdin ← if i.readsStdin then (← IO.getStdin).readBinToEnd else pure .empty
  return ⟨⟨kind?, content⟩, stdin.toList, ← wantsColors⟩

/-- Writes the new config file, if there is one. -/
def commit (o : Outcome) : IO Outcome := do
  match o.result with
  | .ok ⟨_, _, some content⟩ =>
    try
      IO.FS.writeBinFile (String.ofList Config.fileName) ⟨content.toArray⟩
      return o
    catch e =>
      return { o with result := .error (.unwritableConfig Config.fileName (fileError e)) }
  | _ => return o

def Invocation.perform (i : Invocation) : IO Answer := do
  return .ran (← commit (run (← surroundings i) i))

/-- Prints what the arguments lead to, and returns the exit status. -/
def Answer.print (answer : Answer) : IO UInt32 := do
  match answer with
  | .misuse => IO.eprint usage
  | .help => IO.print usage
  | .version => IO.print (String.ofList versionLine)
  | .ran outcome =>
    for entry in outcome.log do
      IO.eprintln (String.ofList entry.line)
    IO.print (String.ofList outcome.text)
    for line in outcome.report do
      IO.eprintln (String.ofList line)
  return answer.status.toUInt32

end CommandLine
end LiquidsoapHighlight

def main (args : List String) : IO UInt32 := do
  let answer ←
    match LiquidsoapHighlight.CommandLine.Invocation.read (args.map String.toList) with
    | .error stop => pure stop.toAnswer
    | .ok invocation => invocation.perform
  answer.print
