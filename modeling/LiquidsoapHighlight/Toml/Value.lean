/-!
The values of a TOML document. A table knows how it came about, which decides what may be added to
it later.
-/

namespace LiquidsoapHighlight
namespace Toml

abbrev Key := List Char

inductive Origin where
  /-- Named by a table header. -/
  | header
  /-- On the way to a table that a header names. -/
  | path
  /-- On the way to a value with a dotted key. -/
  | dotted
  /-- Written in braces. -/
  | inline
  deriving DecidableEq

inductive Value where
  | string (text : List Char)
  | integer (n : Int)
  | float
  | dateTime
  | boolean (b : Bool)
  | array (items : List Value)
  | table (origin : Origin) (entries : List (Key × Value))
  /-- The tables under one repeated header, the latest first. -/
  | tables (items : List (List (Key × Value)))

abbrev Entries := List (Key × Value)

namespace Entries

/-- Replaces the value of a key, or adds the key. -/
def set (entries : Entries) (key : Key) (value : Value) : Entries :=
  match entries with
  | [] => [(key, value)]
  | entry :: rest => if entry.1 = key then (key, value) :: rest else entry :: set rest key value

/-- Adds a value under a dotted key, given as the keys before the last one and that one. It may
pass through tables that no header names, but the last of them must itself come from dotted keys. -/
def insertDotted (entries : Entries) (value : Value) : List Key → Key → Option Entries
  | [], key => if (entries.lookup key).isSome then none else some (entries.set key value)
  | first :: rest, key =>
    match entries.lookup first with
    | none => do return entries.set first (.table .dotted (← insertDotted [] value rest key))
    | some (.table .dotted content) => do
      return entries.set first (.table .dotted (← insertDotted content value rest key))
    | some (.table .path content) =>
      if rest.isEmpty then none
      else do return entries.set first (.table .path (← insertDotted content value rest key))
    | some (.tables (content :: earlier)) =>
      if rest.isEmpty then none
      else do
        return entries.set first (.tables ((← insertDotted content value rest key) :: earlier))
    | some _ => none

/-- Changes the table at a path, through the latest of repeated tables, and makes the tables on the
way that are missing. -/
def modifyAt (entries : Entries) (change : Entries → Option Entries) : List Key → Option Entries
  | [] => change entries
  | key :: rest =>
    match entries.lookup key with
    | none => do return entries.set key (.table .path (← modifyAt [] change rest))
    | some (.table origin content) =>
      if origin = .inline then none
      else do return entries.set key (.table origin (← modifyAt content change rest))
    | some (.tables (content :: earlier)) => do
      return entries.set key (.tables ((← modifyAt content change rest) :: earlier))
    | some _ => none

/-- Opens the table of a header. Only a table that so far was just on the way may exist. -/
def openTable (entries : Entries) (key : Key) : Option Entries :=
  match entries.lookup key with
  | none => some (entries.set key (.table .header []))
  | some (.table .path content) => some (entries.set key (.table .header content))
  | some _ => none

/-- Opens one more table of a repeated header. -/
def openRepeated (entries : Entries) (key : Key) : Option Entries :=
  match entries.lookup key with
  | none => some (entries.set key (.tables [[]]))
  | some (.tables items) => some (entries.set key (.tables ([] :: items)))
  | some _ => none

end Entries
end Toml
end LiquidsoapHighlight
