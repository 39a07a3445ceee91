import LiquidsoapHighlight.Toml.Key
import LiquidsoapHighlight.Toml.Scalar

/-!
Reading a TOML document: first its statements, line by line, then the table that they make up.
-/

namespace LiquidsoapHighlight
namespace Toml

/-- The number of keys with dots between them, and of values inside one another, is limited. -/
def nestingLimit : Nat := 79

/-- The rest of an array, at most one item for each element of the first list. -/
def arrayItems? (item : Reader Value) : List Char → Reader (List Value)
  | [], _ => none
  | _ :: limit, text => do
    match ← skipFiller? false text with
    | ']' :: rest => return ([], rest)
    | text =>
      let (value, text) ← item text
      match ← skipFiller? false text with
      | ']' :: rest => return ([value], rest)
      | ',' :: rest =>
        let (values, rest) ← arrayItems? item limit rest
        return (value :: values, rest)
      | _ => none

/-- A key, an equals sign and a value. -/
def pair? (item : Reader Value) : Reader (List Key × Value) := fun text => do
  let (keys, text) ← dottedKey? nestingLimit text
  match text with
  | '=' :: text =>
    let (value, text) ← item (skipBlanks text)
    return ((keys, value), text)
  | _ => none

/-- The value of a dotted key among other entries. -/
def addPair? (entries : Entries) (keys : List Key) (value : Value) : Option Entries := do
  entries.insertDotted value keys.dropLast (← keys.getLast?)

/-- The rest of a table in braces, which has at least one entry. -/
def inlinePairs? (item : Reader Value) : List Char → Entries → Reader Entries
  | [], _, _ => none
  | _ :: limit, entries, text => do
    let ((keys, value), text) ← pair? item text
    let entries ← addPair? entries keys value
    match skipBlanks text with
    | '}' :: rest => return (entries, rest)
    | ',' :: rest => inlinePairs? item limit entries rest
    | _ => none

/-- A value with at most the given number of others around each other inside. -/
def value? : Nat → Reader Value
  | 0, text => scalar? text
  | nesting + 1, text =>
    match text with
    | '[' :: rest => do
      let (items, rest) ← arrayItems? (value? nesting) text rest
      return (.array items, rest)
    | '{' :: rest =>
      match skipBlanks rest with
      | '}' :: rest => some (.table .inline [], rest)
      | rest => do
        let (entries, rest) ← inlinePairs? (value? nesting) text [] rest
        return (.table .inline entries, rest)
    | _ => scalar? text

inductive Statement where
  | pair (keys : List Key) (value : Value)
  | header (keys : List Key)
  | repeatedHeader (keys : List Key)

def statement? : Reader Statement
  | '[' :: '[' :: text => do
    let (keys, text) ← dottedKey? nestingLimit text
    match text with
    | ']' :: ']' :: rest => return (.repeatedHeader keys, rest)
    | _ => none
  | '[' :: text => do
    let (keys, text) ← dottedKey? nestingLimit text
    match text with
    | ']' :: rest => return (.header keys, rest)
    | _ => none
  | text => do
    let ((keys, value), rest) ← pair? (value? nestingLimit) text
    return (.pair keys value, rest)

/-- The statements of a document, at most one line for each element of the first list. -/
def statements? : List Char → List Char → Option (List Statement)
  | [], text => if (skipBlanks text).isEmpty then some [] else none
  | _ :: limit, text =>
    match skipBlanks text with
    | [] => some []
    | c :: rest =>
      if c == '#' || c == '\n' || c == '\r' then do statements? limit (← skipLine? (c :: rest))
      else do
        let (statement, rest) ← statement? (c :: rest)
        return statement :: (← statements? limit (← skipLine? rest))

/-- The table so far, and the header that is in force. -/
structure Progress where
  root : Entries
  header : List Key

def Progress.add? (p : Progress) : Statement → Option Progress
  | .pair keys value => do
    return { p with
      root := ← p.root.modifyAt (fun entries => addPair? entries keys value) p.header }
  | .header keys => do
    let last ← keys.getLast?
    return ⟨← p.root.modifyAt (fun entries => entries.openTable last) keys.dropLast, keys⟩
  | .repeatedHeader keys => do
    let last ← keys.getLast?
    return ⟨← p.root.modifyAt (fun entries => entries.openRepeated last) keys.dropLast, keys⟩

def skipByteOrderMark : List Char → List Char
  | '\ufeff' :: rest => rest
  | text => text

/-- The entries of a document, if it is well formed. -/
def read? (text : List Char) : Option Entries := do
  let text := skipByteOrderMark text
  let statements ← statements? text text
  return (← statements.foldlM Progress.add? ⟨[], []⟩).root

end Toml
end LiquidsoapHighlight
