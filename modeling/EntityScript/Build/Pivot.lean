import EntityScript.Build.Error
import EntityScript.Code.Fragment
import EntityScript.Input.Model
import EntityScript.Input.Schema
import EntityScript.Name.Case
import EntityScript.Options
import EntityScript.Type.Column
/-!
# Pivot interfaces

One interface for each join table, shared by every relation through it. All relations of a run are
registered before any is built, so an interface is final when it is referred to.
-/

namespace EntityScript

/-- The interface of a join table. -/
structure PivotInterface where
  table : String
  /-- The columns of the table. -/
  columns : List ColumnSchema
  /-- The names of the columns that are shown. -/
  included : List String := []
  /-- Whether a relation has listed its columns. -/
  isExplicit : Bool := false
  deriving Repr, DecidableEq

namespace PivotInterface

def name (p : PivotInterface) : String :=
  Name.pascal p.table ++ "Pivot"

/-- Listed columns are united; columns that were not listed count only while no relation lists any. -/
def includeColumns (p : PivotInterface) (names : List String) (isExplicit : Bool) : PivotInterface :=
  if isExplicit then
    { p with included := (if p.isExplicit then p.included else []) ++ names, isExplicit := true }
  else if p.isExplicit || !p.included.isEmpty then p
  else { p with included := names }

/-- The columns that are shown with their types, in the order of the table. -/
def fields (p : PivotInterface) : List (String × String) :=
  (p.columns.filter fun c => p.included.contains c.name).map fun c =>
    (c.name, (Column.type? c.type).getD "any")

/-- The file of the interface; dates stay dates here. -/
def fragments (p : PivotInterface) (o : Options) : List Fragment :=
  [.line ("// Auto-generated pivot interface for table: " ++ p.table),
    .block ("export default interface " ++ p.name ++ " \x7b")
      (p.fields.map fun (column, type) => .line (column ++ "?: " ++ type ++ o.terminator))
      (some "\x7d")]

def render (p : PivotInterface) (o : Options) : String :=
  (Writer.emitAll { unit := o.indent.unit } (p.fragments o)).text

end PivotInterface

/-- What a relation takes from its join table. -/
structure PivotSelection where
  /-- The columns of the table. -/
  columns : List ColumnSchema
  selected : List ColumnSchema
  isExplicit : Bool
  deriving Repr, DecidableEq

/-- How a relation refers to the interface of its join table. -/
structure PivotUse where
  interfaceName : String
  /-- The selected columns that are shown and never null. -/
  required : List String
  deriving Repr, DecidableEq

/-- The interfaces of a run, in the order of their first registration. -/
structure PivotRegistry where
  schema : Option Schema
  interfaces : List PivotInterface := []
  deriving Repr, DecidableEq

namespace PivotRegistry

/-- Whether a column is shown when no columns are listed: all but keys and time stamps are. -/
def isShown (c : ColumnSchema) : Bool :=
  !(["id", "created_at", "updated_at"].contains c.name) && !"_id".toList.isSuffixOf c.name.toList

/-- The listed columns of a table. -/
def listed (relation : String) (pivot : PivotSource) (table : TableSchema) :
    Except BuildError (List ColumnSchema) :=
  pivot.columns.mapM fun name =>
    match table.column? name with
    | some column => .ok column
    | none => .error (.pivotColumnNotFound relation pivot.table name)

/-- Succeeds if every column has a type. -/
def checkTypes (table : String) (columns : List ColumnSchema) : Except BuildError Unit :=
  columns.forM fun c =>
    if (Column.type? c.type).isSome then .ok () else .error (.unknownColumnType table c.name c.type)

/-- What a relation takes from its join table. -/
def select (r : PivotRegistry) (relation : String) (pivot : PivotSource) :
    Except BuildError PivotSelection :=
  match r.schema.bind (·.table? pivot.table) with
  | none => .error (.pivotTableNotFound relation pivot.table)
  | some table => do
    let isExplicit := !pivot.columns.isEmpty
    let selected ←
      if isExplicit then listed relation pivot table else pure (table.columns.filter isShown)
    checkTypes pivot.table selected
    return { columns := table.columns, selected, isExplicit }

def get? (r : PivotRegistry) (table : String) : Option PivotInterface :=
  r.interfaces.find? (·.table == table)

/-- The interface of a table takes in what a relation selects. -/
def includeSelection (r : PivotRegistry) (table : String) (s : PivotSelection) : PivotRegistry :=
  let names := s.selected.map (·.name)
  if r.interfaces.any (·.table == table) then
    { r with
      interfaces := r.interfaces.map fun p =>
        if p.table == table then p.includeColumns names s.isExplicit else p }
  else
    let fresh : PivotInterface := { table, columns := s.columns }
    { r with interfaces := r.interfaces ++ [fresh.includeColumns names s.isExplicit] }

/-- Registers the use of a join table by a relation. -/
def register (r : PivotRegistry) (relation : String) (pivot : PivotSource) :
    Except BuildError PivotRegistry :=
  (r.select relation pivot).map (r.includeSelection pivot.table)

/-- Registers a relation, if it shows a join table. -/
def registerRelation (r : PivotRegistry) (relation : RelationSource) : Except BuildError PivotRegistry :=
  match relation.pivot with
  | some pivot => r.register relation.name pivot
  | none => .ok r

/-- Registers relations in turn. What was registered before a failure stays. -/
def registerRelations (r : PivotRegistry) : List RelationSource → PivotRegistry × Except BuildError Unit
  | [] => (r, .ok ())
  | relation :: relations =>
    match r.registerRelation relation with
    | .ok r => registerRelations r relations
    | .error e => (r, .error e)

/-- Registers every relation of a model. -/
def registerModel (r : PivotRegistry) (m : ModelSource) : PivotRegistry × Except BuildError Unit :=
  r.registerRelations m.relations

/-- How a relation refers to the interface of its join table. -/
def reference (r : PivotRegistry) (relation : String) (pivot : PivotSource) :
    Except BuildError PivotUse := do
  let s ← r.select relation pivot
  match r.get? pivot.table with
  | none => throw (.pivotNotRegistered relation pivot.table)
  | some p =>
    let required := s.selected.filter fun c => !c.nullable && p.included.contains c.name
    return { interfaceName := p.name, required := Text.distinct (required.map (·.name)) }

end PivotRegistry

end EntityScript
