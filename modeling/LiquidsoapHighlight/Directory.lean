import LiquidsoapHighlight.Files
import LiquidsoapHighlight.Text.Width

/-!
A directory and what is under it, as a program run in it sees it. What lies outside the directory is
taken to be empty, and closed to writing.
-/

namespace LiquidsoapHighlight

inductive Entry where
  | file (content : List UInt8)
  /-- A file that the system refuses to open. -/
  | locked (cause : FileError)
  | directory (entries : List (List Char × Entry))
  /-- Stands for what its path leads to, from the directory that it is in. -/
  | link (target : Path)

/-- What stands under names in an entry, the outermost first. No link is followed. -/
def Entry.under : Entry → List (List Char) → Option Entry
  | e, [] => some e
  | directory entries, name :: rest => (entries.lookup name).bind (under · rest)
  | _, _ :: _ => none

/-- What an entry is found to be. A link is not found to be anything itself. -/
def Entry.kind? : Entry → Option FileKind
  | file _ => some .file
  | locked _ => some .file
  | directory _ => some .directory
  | link _ => none

abbrev Directory := List (List Char × Entry)

/-- A place under a directory, by the names that lead to it, the last one first; or the outside. -/
abbrev Place := Option (List (List Char))

namespace Place

def above : Place → Place
  | some (_ :: names) => some names
  | _ => none

/-- Where the names of a path start, seen from a place. -/
def start (path : Path) (p : Place) : Place := if path.isAbsolute then none else p

end Place

/-- Where a walk along names ends. -/
inductive Arrival where
  | found (p : Place)
  /-- There is no entry with the name at the place; further names may come after it. -/
  | free (p : Place) (name : List Char) (rest : List (List Char))
  /-- A link that is still to be followed, and the names after it. -/
  | link (p : Place) (target : Path) (rest : List (List Char))

namespace Directory

def longestName : Nat := 255

def longestPath : Nat := 4095

/-- So many links are followed on the way along a path. -/
def mostLinks : Nat := 40

/-- Replaces the entry of a name, or adds one. -/
def set (d : Directory) (name : List Char) (entry : Entry) : Directory :=
  match d with
  | [] => [(name, entry)]
  | (other, old) :: rest =>
    if other = name then (name, entry) :: rest else (other, old) :: set rest name entry

/-- The directory that a name stands for, empty if there is none. -/
def inside (d : Directory) (name : List Char) : Directory :=
  match d.lookup name with
  | some (.directory inner) => inner
  | _ => []

/-- Adds an entry under names, with the directories that it needs. -/
def add (d : Directory) (entry : Entry) : List (List Char) → Directory
  | [] => d
  | [name] => d.set name entry
  | name :: rest => d.set name (.directory (add (d.inside name) entry rest))

/-- What stands at a place. -/
def entryAt (d : Directory) : Place → Option Entry
  | some names => (Entry.directory d).under names.reverse
  | none => some (.directory [])

/-- What stands under a name at a place. -/
def child? (d : Directory) (p : Place) (name : List Char) : Option Entry :=
  p.bind fun names => d.entryAt (some (name :: names))

/-- Follows names from a place up to the first link. -/
def walk (d : Directory) : Place → List (List Char) → Except FileError Arrival
  | p, [] => .ok (.found p)
  | p, name :: rest =>
    if name = [] ∨ name = ['.'] then walk d p rest
    else if name = ['.', '.'] then walk d p.above rest
    else if longestName < Text.byteLength name then .error .nameTooLong
    else
      match d.child? p name with
      | none => .ok (.free p name rest)
      | some (.link target) => .ok (.link p target rest)
      | some (.directory _) => walk d (p.map (name :: ·)) rest
      | some _ => if rest = [] then .ok (.found (p.map (name :: ·))) else .error .notDirectory

/-- Follows names from a place, and so many links on the way. -/
def follow (d : Directory) : Nat → Place → List (List Char) → Except FileError Arrival
  | 0, p, names => d.walk p names
  | links + 1, p, names =>
    match d.walk p names with
    | .ok (.link p target rest) => follow d links (p.start target) (target.names ++ rest)
    | arrival => arrival

/-- Where a path leads to. -/
def arrive (d : Directory) (path : Path) : Except FileError Arrival :=
  if path = [] then .error .notFound
  else if longestPath < Text.byteLength path then .error .nameTooLong
  else d.follow mostLinks (Place.start path (some [])) path.names

/-- What a path leads to. -/
def entry (d : Directory) (path : Path) : Except FileError Entry :=
  match d.arrive path with
  | .ok (.found p) => (d.entryAt p).elim (.error .notFound) .ok
  | .ok (.free _ _ _) => .error .notFound
  | .ok (.link _ _ _) => .error .tooManyLinks
  | .error e => .error e

def content (d : Directory) (path : Path) : Except FileError (List UInt8) :=
  match d.entry path with
  | .ok (.file content) => .ok content
  | .ok (.locked cause) => .error cause
  | .ok (.directory _) => .error .isDirectory
  | .ok (.link _) => .error .tooManyLinks
  | .error e => .error e

/-- What a program that runs in the directory finds. -/
def read (d : Directory) : Files :=
  ⟨fun path => (d.entry path).toOption.bind Entry.kind?, d.content⟩

/-- Where a file is written for a path: at a free place, or in place of another file. -/
def target (d : Directory) (path : Path) : Except FileError (List (List Char)) :=
  match d.arrive path with
  | .ok (.free (some names) name []) => .ok (name :: names).reverse
  | .ok (.free none _ []) => .error .denied
  | .ok (.free _ _ rest) => if rest.all List.isEmpty then .error .isDirectory else .error .notFound
  | .ok (.found p) =>
    match p, d.entryAt p with
    | some names, some (.file _) => .ok names.reverse
    | _, some (.locked cause) => .error cause
    | _, _ => .error .isDirectory
  | .ok (.link _ _ _) => .error .tooManyLinks
  | .error e => .error e

def write (d : Directory) (path : Path) (content : List UInt8) : Except FileError Directory :=
  (d.target path).map (d.add (.file content))

/-- The directory with a file written to it, if that is possible. -/
def overwritten (d : Directory) (path : Path) (content : List UInt8) : Directory :=
  match d.write path content with
  | .ok written => written
  | .error _ => d

end Directory
end LiquidsoapHighlight
