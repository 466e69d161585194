import EntityScript.Dictionary
import EntityScript.Toml.Value
/-!
# Documents

The table that the statements of a document build. Each table remembers how it came about, because
that decides what may still be added to it.
-/

namespace EntityScript.Toml

/-- How a table came about. -/
inductive TableForm
  /-- By a header of its own. -/
  | explicit
  /-- As part of the path of a header; it may still get a header of its own. -/
  | implied
  /-- As part of a dotted key; only further dotted keys may add to it. -/
  | dotted
  deriving Repr, DecidableEq

/-- A part of a document that is being built. -/
inductive Node
  /-- Complete: nothing can be added. -/
  | value (value : Value)
  /-- The elements of an array that headers add to, each a table. -/
  | tables (elements : List Node)
  | table (form : TableForm) (entries : List (String × Node))
  deriving Repr, Inhabited

namespace Node

mutual

/-- The value that a part has become. -/
def toValue : Node → Value
  | value v => v
  | tables elements => .array (valuesOf elements)
  | table _ entries => .table (entriesOf entries)

def valuesOf : List Node → List Value
  | [] => []
  | node :: nodes => toValue node :: valuesOf nodes

def entriesOf : List (String × Node) → List (String × Value)
  | [] => []
  | (key, node) :: entries => (key, toValue node) :: entriesOf entries

end

/-- Changes the table at a path below a table. Tables that are missing are made on the way, as parts
of a dotted key or of a header; an array stands for its last element. -/
def changeAt (isDotted : Bool) (change : TableForm → List (String × Node) → Option (List (String × Node)))
    (form : TableForm) (entries : List (String × Node)) : List String → Option (List (String × Node))
  | [] => change form entries
  | key :: path =>
    match Dictionary.get? key entries with
    | none => do
      let made := if isDotted then TableForm.dotted else .implied
      let inner ← changeAt isDotted change made [] path
      return Dictionary.put key (table made inner) entries
    | some (tables elements) =>
      match elements.getLast? with
      | some (table last inner) => do
        let inner ← changeAt isDotted change last inner path
        return Dictionary.put key (tables (elements.dropLast ++ [table last inner])) entries
      | _ => none
    | some (table existing inner) =>
      if isDotted && existing == .explicit then none
      else do
        let inner ← changeAt isDotted change existing inner path
        return Dictionary.put key (table existing inner) entries
    | some (value _) => none

/-- Adds an entry to a table. A dotted key adds only to tables that dotted keys made, a plain one only
to others. -/
def addEntry (isDotted : Bool) (key : String) (v : Value) (form : TableForm)
    (entries : List (String × Node)) : Option (List (String × Node)) :=
  if (form == .dotted) != isDotted then none
  else
    match Dictionary.get? key entries with
    | some _ => none
    | none => some (Dictionary.put key (value v) entries)

/-- Adds a value under a key behind a path of further keys. -/
def assign (path : List String) (key : String) (v : Value) (form : TableForm)
    (entries : List (String × Node)) : Option (List (String × Node)) :=
  changeAt true (addEntry (!path.isEmpty) key v) form entries path

/-- Gives a key a table of its own. -/
def openTable (key : String) (_ : TableForm) (entries : List (String × Node)) :
    Option (List (String × Node)) :=
  match Dictionary.get? key entries with
  | none => some (Dictionary.put key (table .explicit []) entries)
  | some (table .implied inner) => some (Dictionary.put key (table .explicit inner) entries)
  | some _ => none

/-- Adds a table to the array of a key. -/
def openElement (key : String) (_ : TableForm) (entries : List (String × Node)) :
    Option (List (String × Node)) :=
  match Dictionary.get? key entries with
  | none => some (Dictionary.put key (tables [table .explicit []]) entries)
  | some (tables elements) =>
    some (Dictionary.put key (tables (elements ++ [table .explicit []])) entries)
  | some _ => none

end Node

/-- A statement of a document. -/
inductive Statement
  /-- `[path.key]` -/
  | table (path : List String) (key : String)
  /-- `[[path.key]]` -/
  | element (path : List String) (key : String)
  /-- `path.key = value` -/
  | assign (path : List String) (key : String) (value : Value)
  deriving Repr

namespace Statement

/-- The effect of a statement on the document and on the path that assignments go to. -/
def apply (document : List (String × Node) × List String) :
    Statement → Option (List (String × Node) × List String)
  | table path key => do
    let root ← Node.changeAt false (Node.openTable key) .explicit document.1 path
    return (root, path ++ [key])
  | element path key => do
    let root ← Node.changeAt false (Node.openElement key) .explicit document.1 path
    return (root, path ++ [key])
  | assign path key value => do
    let root ← Node.changeAt false (Node.assign path key value) .explicit document.1 document.2
    return (root, document.2)

/-- The table that statements build. -/
def build (statements : List Statement) : Option (List (String × Value)) := do
  let (root, _) ← statements.foldlM apply ([], [])
  return Node.entriesOf root

end Statement

/-- The table that the assignments of an inline table build. -/
def inlineTable (assignments : List (List String × String × Value)) : Option (List (String × Value)) := do
  let entries ← assignments.foldlM
    (fun entries (path, key, value) => Node.assign path key value .explicit entries) []
  return Node.entriesOf entries

end EntityScript.Toml
