import EntityScript.Toml.Document
/-!
# Decoding TOML

From TOML values to the types of this library. A record is written as a table of its fields or as an
array of them in order; a constant as a string or as a table whose only key has nothing under it.
-/

namespace EntityScript.Toml.Decode

/-- The key under which a datetime that stands for a table holds its text. -/
def datetimeKey : String := "$__toml_private_datetime"

def string? : Value → Option String
  | .string s => some s
  | _ => none

def boolean? : Value → Option Bool
  | .boolean b => some b
  | _ => none

def list? {α : Type} (item : Value → Option α) : Value → Option (List α)
  | .array items => items.mapM item
  | _ => none

/-- The entries of a table. -/
def entries? : Value → Option (List (String × Value))
  | .table entries => some entries
  | .datetime d => some [(datetimeKey, .string d.text)]
  | _ => none

mutual

/-- A value of any kind, in which every integer has 64 bits. -/
def value? : Value → Option Value
  | .integer n => if isWord n then some (.integer n) else none
  | .oversized => none
  | .array items => (values? items).map .array
  | .table [] => some (.table [])
  | .table ((key, v) :: entries) =>
    if key = datetimeKey then
      match v with
      | .string s => (Datetime.read? s.toList).map .datetime
      | _ => none
    else (fields? ((key, v) :: entries)).map .table
  | v => some v

def values? : List Value → Option (List Value)
  | [] => some []
  | v :: vs => do
    let v ← value? v
    let vs ← values? vs
    return v :: vs

def fields? : List (String × Value) → Option (List (String × Value))
  | [] => some []
  | (key, v) :: entries => do
    let v ← value? v
    let entries ← fields? entries
    return (key, v) :: entries

end

/-- The constant that a word names. -/
def constant? {α : Type} (words : List (String × α)) : Value → Option α
  | .string word => words.lookup word
  | .table [(word, .table [])] => words.lookup word
  | .table [(word, .array [])] => words.lookup word
  | _ => none

/-- The fields that a record has, by name. A closed table has no others; what an array has beyond them
is not read. -/
def record? (names : List String) (closed : Bool) : Value → Option (List (String × Value))
  | .table entries =>
    if closed && !entries.all (fun e => names.contains e.1) then none else some entries
  | .array items => some (names.zip items)
  | _ => none

/-- A field that has to be there. -/
def required? {α : Type} (record : List (String × Value)) (name : String) (decode : Value → Option α) :
    Option α :=
  (record.lookup name).bind decode

/-- A field that may be missing. -/
def optional? {α : Type} (record : List (String × Value)) (name : String) (default : α)
    (decode : Value → Option α) : Option α :=
  match record.lookup name with
  | some v => decode v
  | none => some default

end EntityScript.Toml.Decode
