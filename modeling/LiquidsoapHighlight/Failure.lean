import LiquidsoapHighlight.Files
import LiquidsoapHighlight.Report

/-!
The ways in which a run can fail, and their messages.
-/

namespace LiquidsoapHighlight

/-- Why a config file cannot be read. -/
inductive ConfigReadError where
  | file (e : FileError)
  | notUtf8
  deriving DecidableEq

def ConfigReadError.message : ConfigReadError → List Char
  | file e => e.message
  | notUtf8 => "stream did not contain valid UTF-8".toList

inductive Failure where
  | unreadableConfig (path : Path) (cause : ConfigReadError)
  | invalidConfig (path : Path)
  | unwritableConfig (path : Path) (cause : FileError)
  | existingConfig (path : Path)
  | unreadableScript (path : Path) (cause : FileError)
  | unknownLanguage (name : List Char) (known : List (List Char))
  deriving DecidableEq

namespace Failure

/-- The messages, from the outermost to the innermost. -/
def messages : Failure → List (List Char)
  | unreadableConfig path cause => ["Failed to read config file ".toList ++ path, cause.message]
  | invalidConfig path => ["Invalid config file ".toList ++ path]
  | unwritableConfig path cause => ["Failed to write config file ".toList ++ path, cause.message]
  | existingConfig path => [path ++ " already exists".toList]
  | unreadableScript path cause => ["Failed to read ".toList ++ path, cause.message]
  | unknownLanguage name known =>
    ["Unknown language '".toList ++ name ++ "' (known: ".toList ++
      List.intercalate ", ".toList known ++ [')']]

def report (f : Failure) : Report := .ofChain f.messages

end Failure
end LiquidsoapHighlight
