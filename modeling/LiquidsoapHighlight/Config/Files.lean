import LiquidsoapHighlight.Config.Basic
import LiquidsoapHighlight.Directory
import LiquidsoapHighlight.Failure
import LiquidsoapHighlight.Text.Utf8

/-!
Finding, reading and writing config files.
-/

namespace LiquidsoapHighlight
namespace Config

/-- The name of the file that is written. -/
def fileName : List Char := ".liqhlrc".toList

/-- The places of config files, the preferred one first. -/
def candidates : List Path :=
  [fileName, ".liqhlrc.toml".toList, ".config/liqhlrc".toList]

def here (path : Path) : Path := "./".toList ++ path

/-- The config file that is used when none is asked for. -/
def find? (files : Files) : Option Path :=
  (candidates.map here).find? files.isFile

def load (files : Files) (path : Path) : Except Failure Config :=
  match files.content path with
  | .error e => .error (.unreadableConfig path (.file e))
  | .ok content =>
    match Utf8.decode? content with
    | none => .error (.unreadableConfig path .notUtf8)
    | some text =>
      match ofText? text with
      | none => .error (.invalidConfig path)
      | some config => .ok config

/-- The settings of the config file that is found, and its path; or the defaults. -/
def loadFound (files : Files) : Except Failure (Config × Option Path) :=
  match find? files with
  | none => .ok (default, none)
  | some path => (load files path).map (·, some path)

/-- What the config file that is written holds. -/
def defaultContent : List UInt8 := Utf8.encode defaultText

/-- Writes the defaults to the directory's config file, which is shown under the path. -/
def create (d : Directory) (path : Path) : Except Failure Directory :=
  match d.write fileName defaultContent with
  | .ok written => .ok written
  | .error e => .error (.unwritableConfig path e)

end Config
end LiquidsoapHighlight
