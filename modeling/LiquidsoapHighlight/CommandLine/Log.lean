import LiquidsoapHighlight.Files
import LiquidsoapHighlight.Text.Numeral

/-!
What a run notes about itself. Warnings are always shown, the other notes only on demand.
-/

namespace LiquidsoapHighlight
namespace CommandLine

inductive LogEntry where
  | loadedConfig (path : Path)
  | noConfig
  | invalidUtf8 (file : Path)
  | readScript (file : Path) (bytes : Nat)
  | scanned (tokens : Nat)
  | highlighted (language : List Char) (tokens : Nat) (relevance : UInt32)
  deriving DecidableEq

namespace LogEntry

def isWarning : LogEntry → Bool
  | invalidUtf8 _ => true
  | _ => false

def line : LogEntry → List Char
  | loadedConfig path => "DEBUG loaded config path=".toList ++ path
  | noConfig => "DEBUG no config file, using defaults".toList
  | invalidUtf8 file =>
    "WARN script is not valid UTF-8, replacing invalid bytes file=".toList ++ file
  | readScript file bytes =>
    "DEBUG read script file=".toList ++ file ++ " bytes=".toList ++ Text.decimal bytes
  | scanned tokens => "DEBUG scanned tokens=".toList ++ Text.decimal tokens
  | highlighted language tokens relevance =>
    "DEBUG highlighted language=\"".toList ++ language ++ "\" tokens=".toList ++
      Text.decimal tokens ++ " relevance=".toList ++ Text.decimal relevance.toNat

end LogEntry
end CommandLine
end LiquidsoapHighlight
