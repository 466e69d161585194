import EntityScript.Input.Error
import EntityScript.Name.Qualified
import EntityScript.Toml.Decode
/-!
# Model descriptions

A model with its table, constants, declared members, relations and documentation.
-/

namespace EntityScript

/-- A declared member. -/
structure MemberSource where
  name : String
  /-- The signal of its type. -/
  type : Option String
  /-- Whether it is computed, by a method such as `getFullNameAttribute`. -/
  accessor : Bool
  /-- A value as it stands; the member is carried along but never written. -/
  literal : Option String
  deriving Repr, DecidableEq

inductive RelationKind
  | hasOne
  | belongsTo
  | hasOneThrough
  | morphOne
  | morphTo
  | hasMany
  | belongsToMany
  | hasManyThrough
  | morphMany
  | morphToMany
  deriving Repr, DecidableEq

namespace RelationKind

/-- Whether the relation leads to several entities. -/
def isToMany : RelationKind → Bool
  | hasMany | belongsToMany | hasManyThrough | morphMany | morphToMany => true
  | hasOne | belongsTo | hasOneThrough | morphOne | morphTo => false

/-- The words for the kinds. -/
def words : List (String × RelationKind) :=
  [("has_one", hasOne), ("belongs_to", belongsTo), ("has_one_through", hasOneThrough),
    ("morph_one", morphOne), ("morph_to", morphTo), ("has_many", hasMany),
    ("belongs_to_many", belongsToMany), ("has_many_through", hasManyThrough),
    ("morph_many", morphMany), ("morph_to_many", morphToMany)]

end RelationKind

/-- The data of a join table that a relation shows. -/
structure PivotSource where
  table : String
  accessor : String
  /-- The columns to show; without any, the schema decides. -/
  columns : List String
  deriving Repr, DecidableEq

structure RelationSource where
  name : String
  kind : RelationKind
  /-- The related entity, perhaps with its namespace. -/
  target : String
  pivot : Option PivotSource
  deriving Repr, DecidableEq

structure ModelSource where
  space : String
  name : String
  table : Option String
  /-- The base of this model, instead of the configured one. -/
  base : Option String
  /-- The documentation block. -/
  doc : String
  /-- In order of their names. -/
  constants : List (String × Toml.Value)
  members : List MemberSource
  relations : List RelationSource
  deriving Repr

namespace ModelSource

open Toml.Decode

def qualifiedName (m : ModelSource) : String :=
  Name.qualify m.space m.name

def decodeMember? (v : Toml.Value) : Option MemberSource := do
  let record ← record? ["name", "type", "accessor", "literal"] false v
  let name ← required? record "name" string?
  let type ← optional? record "type" none fun v => (string? v).map some
  let accessor ← optional? record "accessor" false boolean?
  let literal ← optional? record "literal" none fun v => (string? v).map some
  return { name, type, accessor, literal }

def decodePivot? (v : Toml.Value) : Option PivotSource := do
  let record ← record? ["table", "accessor", "columns"] false v
  let table ← required? record "table" string?
  let accessor ← optional? record "accessor" "pivot" string?
  let columns ← optional? record "columns" [] (list? string?)
  return { table, accessor, columns }

def decodeRelation? (v : Toml.Value) : Option RelationSource := do
  let record ← record? ["name", "kind", "target", "pivot"] false v
  let name ← required? record "name" string?
  let kind ← required? record "kind" (constant? RelationKind.words)
  let target ← required? record "target" string?
  let pivot ← optional? record "pivot" none fun v => (decodePivot? v).map some
  return { name, kind, target, pivot }

def decodeConstants? (v : Toml.Value) : Option (List (String × Toml.Value)) := do
  (← entries? v).mapM fun (name, constant) => (value? constant).map (name, ·)

/-- The model that a table describes. -/
def decode? (v : Toml.Value) : Option ModelSource := do
  let record ← record? ["namespace", "name", "table", "extends", "doc", "constants", "members",
    "relations"] false v
  let space ← optional? record "namespace" "" string?
  let name ← required? record "name" string?
  let table ← optional? record "table" none fun v => (string? v).map some
  let base ← optional? record "extends" none fun v => (string? v).map some
  let doc ← optional? record "doc" "" string?
  let constants ← optional? record "constants" [] decodeConstants?
  let members ← optional? record "members" [] (list? decodeMember?)
  let relations ← optional? record "relations" [] (list? decodeRelation?)
  return { space, name, table, base, doc, constants, members, relations }

/-- The first fault of a relation; `seen` are the names of those before it. -/
def relationFault? (seen : List String) (r : RelationSource) : Option InvalidInput :=
  if seen.contains r.name then some (.repeatedRelation r.name)
  else if Text.isBlankText r.target then some (.emptyTarget r.name)
  else
    match r.pivot with
    | some pivot => if Text.isBlankText pivot.table then some (.emptyPivotTable r.name) else none
    | none => none

/-- The first fault of the relations. -/
def relationsFault? (seen : List String) : List RelationSource → Option InvalidInput
  | [] => none
  | r :: rs =>
    match relationFault? seen r with
    | some fault => some fault
    | none => relationsFault? (r.name :: seen) rs

/-- Succeeds if the model can be generated as it is described. -/
def check (src : String) (m : ModelSource) : Except InputError Unit := do
  Identifier.check src "model" m.name
  match relationsFault? [] m.relations with
  | some fault => throw (.ofWhole fault)
  | none => pure ()
  if m.members.any fun member => Text.isBlankText member.name then
    throw (.atKey src .emptyMember "name")

end ModelSource

end EntityScript
