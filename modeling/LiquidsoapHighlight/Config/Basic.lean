import LiquidsoapHighlight.Toml.Document

/-!
The settings, their defaults, and their form in a config file.
-/

namespace LiquidsoapHighlight

inductive OutputFormat where
  /-- Colored text for a terminal. -/
  | ansi
  /-- HTML with a class for each kind of token. -/
  | markup
  deriving DecidableEq

namespace OutputFormat

def name : OutputFormat → List Char
  | ansi => "ansi".toList
  | markup => "markup".toList

def ofName? (name : List Char) : Option OutputFormat :=
  [ansi, markup].find? fun format => format.name = name

end OutputFormat

structure Config where
  colored : Bool
  verbose : Bool
  format : OutputFormat
  classPrefix : List Char
  deriving DecidableEq

/-- Settings that are given, each by itself. -/
structure ConfigOverride where
  colored : Option Bool
  verbose : Option Bool
  format : Option OutputFormat
  classPrefix : Option (List Char)
  deriving DecidableEq

namespace Config

def default : Config := ⟨true, false, .ansi, "hljs-".toList⟩

/-- The given settings in place of the ones there are. -/
def override (c : Config) (o : ConfigOverride) : Config :=
  ⟨o.colored.getD c.colored, o.verbose.getD c.verbose, o.format.getD c.format,
    o.classPrefix.getD c.classPrefix⟩

/-- The text of a config file that sets the defaults. -/
def defaultText : List Char :=
  "# liqhl configuration file

# Enable colored output in terminal
colored = true

# Log scanner and config details to stderr
verbose = false

# Output of `liqhl highlight`: \"ansi\" or \"markup\"
format = \"ansi\"

# Prefix for class names in markup output
class_prefix = \"hljs-\"
".toList

end Config

namespace ConfigOverride

open Toml (Value Entries)

def boolean? : Value → Option Bool
  | .boolean b => some b
  | _ => none

def string? : Value → Option (List Char)
  | .string text => some text
  | _ => none

def isEmptyCollection : Value → Bool
  | .array items => items.isEmpty
  | .table _ entries => entries.isEmpty
  | .tables items => items.isEmpty
  | _ => false

/-- The name of a format, alone or as the only key of a table with nothing under it. -/
def format? : Value → Option OutputFormat
  | .string name => OutputFormat.ofName? name
  | .table _ [(name, content)] =>
    if isEmptyCollection content then OutputFormat.ofName? name else none
  | _ => none

/-- The setting under a key. A value that does not fit is an error, a missing key is not. -/
def setting? {α : Type} (read : Value → Option α) (entries : Entries) (key : String) :
    Option (Option α) :=
  match entries.lookup key.toList with
  | none => some none
  | some value => (read value).map some

/-- The settings in the entries of a config file; other keys are ignored. -/
def ofEntries? (entries : Entries) : Option ConfigOverride := do
  return ⟨← setting? boolean? entries "colored", ← setting? boolean? entries "verbose",
    ← setting? format? entries "format", ← setting? string? entries "class_prefix"⟩

end ConfigOverride

/-- The settings of a config file, with the defaults for those that it leaves out. -/
def Config.ofText? (text : List Char) : Option Config := do
  return Config.default.override (← ConfigOverride.ofEntries? (← Toml.read? text))

end LiquidsoapHighlight
