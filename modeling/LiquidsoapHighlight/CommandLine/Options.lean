/-!
The names of the commands, and the options that each of them has.
-/

namespace LiquidsoapHighlight
namespace CommandLine

abbrev Argument := List Char

inductive CommandName where
  | tokens
  | highlight
  | score
  | init
  deriving DecidableEq

def CommandName.ofArgument? (arg : Argument) : Option CommandName :=
  [("tokens".toList, tokens), ("highlight".toList, highlight), ("score".toList, score),
    ("init".toList, init)].lookup arg

def helpCommand : Argument := "help".toList

inductive OptionName where
  | verbose
  | noColor
  | config
  | help
  | version
  | raw
  | format
  | classPrefix
  | language
  deriving DecidableEq

namespace OptionName

def takesValue : OptionName → Bool
  | config => true
  | format => true
  | classPrefix => true
  | language => true
  | _ => false

/-- The options of a command, or those before any command. -/
def availableTo : Option CommandName → List OptionName
  | none => [verbose, noColor, config, help, version]
  | some .tokens => [verbose, noColor, config, help, raw]
  | some .highlight => [verbose, noColor, config, help, format, classPrefix, language]
  | some .score => [verbose, noColor, config, help]
  | some .init => [verbose, noColor, config, help]

def long : OptionName → Argument
  | verbose => "verbose".toList
  | noColor => "no-color".toList
  | config => "config".toList
  | help => "help".toList
  | version => "version".toList
  | raw => "raw".toList
  | format => "format".toList
  | classPrefix => "class-prefix".toList
  | language => "language".toList

def short? : OptionName → Option Char
  | verbose => some 'v'
  | help => some 'h'
  | version => some 'V'
  | format => some 'f'
  | language => some 'l'
  | _ => none

def ofLong? (command : Option CommandName) (name : Argument) : Option OptionName :=
  (availableTo command).find? fun option => option.long = name

def ofShort? (command : Option CommandName) (c : Char) : Option OptionName :=
  (availableTo command).find? fun option => option.short? = some c

end OptionName

end CommandLine
end LiquidsoapHighlight
