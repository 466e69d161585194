import EntityScript.Input.Error
import EntityScript.Toml.Decode
import EntityScript.Toml.Reader
/-!
# Schema

The tables behind models and pivots, with their columns.
-/

namespace EntityScript

structure ColumnSchema where
  name : String
  /-- The native type. -/
  type : String
  nullable : Bool
  deriving Repr, DecidableEq

structure TableSchema where
  columns : List ColumnSchema
  deriving Repr, DecidableEq

/-- Tables in order of their names. -/
structure Schema where
  tables : List (String × TableSchema)
  deriving Repr, DecidableEq

def TableSchema.column? (t : TableSchema) (name : String) : Option ColumnSchema :=
  t.columns.find? (·.name == name)

namespace Schema

open Toml.Decode

def table? (s : Schema) (name : String) : Option TableSchema :=
  Dictionary.get? name s.tables

def decodeColumn? (v : Toml.Value) : Option ColumnSchema := do
  let record ← record? ["name", "type", "nullable"] true v
  let name ← required? record "name" string?
  let type ← required? record "type" string?
  let nullable ← optional? record "nullable" false boolean?
  return { name, type, nullable }

def decodeTable? (v : Toml.Value) : Option TableSchema := do
  let record ← record? ["columns"] true v
  let columns ← optional? record "columns" [] (list? decodeColumn?)
  return { columns }

def decodeTables? (v : Toml.Value) : Option (List (String × TableSchema)) := do
  (← entries? v).mapM fun (name, table) => (decodeTable? table).map (name, ·)

/-- The schema that a table describes. -/
def decode? (v : Toml.Value) : Option Schema := do
  let record ← record? ["tables"] true v
  let tables ← optional? record "tables" [] decodeTables?
  return { tables }

/-- The first element that an earlier one equals. -/
def firstRepeated? (seen : List String) : List String → Option String
  | [] => none
  | x :: xs => if seen.contains x then some x else firstRepeated? (x :: seen) xs

/-- Succeeds if no table has two columns of one name. -/
def check (src : String) (s : Schema) : Except InputError Unit :=
  s.tables.forM fun (name, table) =>
    match firstRepeated? [] (table.columns.map (·.name)) with
    | some column => .error (.atKey src (.repeatedColumn column name) name)
    | none => .ok ()

/-- The schema that a text writes. -/
def parse (file src : String) : Except InputError Schema :=
  match (Toml.read? src).bind fun entries => decode? (.table entries) with
  | none => .error (.parse file)
  | some s =>
    match check src s with
    | .ok () => .ok s
    | .error e => .error e

end Schema

end EntityScript
