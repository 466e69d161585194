import EntityScript.Input.Enumeration
import EntityScript.Input.Model
import EntityScript.Toml.Reader
/-!
# Entity descriptions

One file describes one model or one enum.
-/

namespace EntityScript

inductive SourceKind
  | model
  | enumeration
  deriving Repr, DecidableEq

inductive EntitySource
  | model (source : ModelSource)
  | enumeration (source : EnumSource)
  deriving Repr

namespace EntitySource

open Toml.Decode

def name : EntitySource → String
  | model m => m.name
  | enumeration e => e.name

def model? : EntitySource → Option ModelSource
  | model m => some m
  | enumeration _ => none

def enumeration? : EntitySource → Option EnumSource
  | model _ => none
  | enumeration e => some e

/-- The kind that a table describes; without a word for it, that is a model. -/
def decodeKind? (entries : List (String × Toml.Value)) : Option SourceKind :=
  optional? entries "kind" .model (constant? [("model", .model), ("enum", .enumeration)])

/-- The entity that a table describes. All of the table is read, whatever is used of it. -/
def decode? (entries : List (String × Toml.Value)) : Option EntitySource := do
  guard (Toml.Value.isReadable (.table entries))
  match ← decodeKind? entries with
  | .model => (ModelSource.decode? (.table entries)).map model
  | .enumeration => (EnumSource.decode? (.table entries)).map enumeration

/-- Succeeds if the entity can be generated as it is described. -/
def check (src : String) : EntitySource → Except InputError Unit
  | model m => m.check src
  | enumeration e => e.check src

/-- The entity that a text describes. -/
def parse (file src : String) : Except InputError EntitySource :=
  match (Toml.read? src).bind decode? with
  | none => .error (.parse file)
  | some s =>
    match check src s with
    | .ok () => .ok s
    | .error e => .error e

end EntitySource

end EntityScript
