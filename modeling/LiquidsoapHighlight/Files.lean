/-!
Paths, and what is found at them.
-/

namespace LiquidsoapHighlight

abbrev Path := List Char

namespace Path

/-- The names between the slashes of a path. An empty name stays where it is. -/
def names : Path → List (List Char)
  | [] => [[]]
  | c :: rest =>
    if c = '/' then [] :: names rest
    else
      match names rest with
      | name :: others => (c :: name) :: others
      | [] => [[c]]

def isAbsolute (path : Path) : Bool := path.head? == some '/'

end Path

inductive FileError where
  | notFound
  | isDirectory
  | notDirectory
  | nameTooLong
  | tooManyLinks
  | denied
  /-- Any other reason, in the words of the system. -/
  | other (reason : List Char)
  deriving DecidableEq

def FileError.message : FileError → List Char
  | notFound => "No such file or directory (os error 2)".toList
  | isDirectory => "Is a directory (os error 21)".toList
  | notDirectory => "Not a directory (os error 20)".toList
  | nameTooLong => "File name too long (os error 36)".toList
  | tooManyLinks => "Too many levels of symbolic links (os error 40)".toList
  | denied => "Permission denied (os error 13)".toList
  | other reason => reason

inductive FileKind where
  | file
  | directory
  /-- A device, say. -/
  | other
  deriving DecidableEq

/-- What is found at paths. To tell what kind of thing it is takes no permission to read it. -/
structure Files where
  kind? : Path → Option FileKind
  content : Path → Except FileError (List UInt8)

namespace Files

def isFile (files : Files) (path : Path) : Bool := files.kind? path == some .file

def isPresent (files : Files) (path : Path) : Bool := (files.kind? path).isSome

end Files
end LiquidsoapHighlight
