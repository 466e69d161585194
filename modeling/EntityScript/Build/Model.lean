import EntityScript.Build.Constant
import EntityScript.Build.Pivot
import EntityScript.Doc
import EntityScript.Entity
import EntityScript.Type.Resolve
/-!
# Building models

The entity of a model. Members come from constants, declared members, columns, relations, pivot
accessors and documentation, in this order, and a later one takes the place of an earlier one of its
name. The constant `qualifiedClassName` comes last.
-/

namespace EntityScript.ModelSource

/-- The base that a model extends; none extends itself. -/
def extended? (m : ModelSource) (o : Options) : Option String :=
  ((m.base.orElse fun _ => o.baseClass).map Name.base).filter (· != m.name)

/-- The relations of a model, each with the way it refers to its pivot interface. -/
def pivotUses (m : ModelSource) (pivots : PivotRegistry) :
    Except BuildError (List (RelationSource × Option (PivotSource × PivotUse))) :=
  m.relations.mapM fun r =>
    match r.pivot with
    | some pivot => (pivots.reference r.name pivot).map fun used => (r, some (pivot, used))
    | none => .ok (r, none)

/-- The imports of a relation: its target, unless that is the model itself, and its pivot interface. -/
def relationImports (m : ModelSource) :
    RelationSource × Option (PivotSource × PivotUse) → List EntityImport
  | (r, used) =>
    let target := Name.base r.target
    (if target = m.name then [] else [.sibling target .entity]) ++
      (match used with
        | some (_, used) => [.sibling used.interfaceName .pivot]
        | none => [])

/-- The imports of a model before its members are known. -/
def baseImports (m : ModelSource) (o : Options)
    (relations : List (RelationSource × Option (PivotSource × PivotUse))) : List EntityImport :=
  (match m.extended? o with
    | some base => [.sibling base .base]
    | none => []) ++
    relations.flatMap m.relationImports

/-- The property of an accessor: `getFullNameAttribute` and `full_name` are `fullName`. -/
def accessorProperty (name : String) : String :=
  let inner := (Text.after? "get".toList name.toList).bind fun rest =>
    (Text.after? "Attribute".toList.reverse rest.reverse).map List.reverse
  match inner with
  | some (c :: cs) => Name.camel (String.ofList (c :: cs))
  | _ => Name.camel name

/-- A declared member. -/
def declaredMember (o : Options) (known : List String) (d : MemberSource) : Member :=
  match d.literal with
  | some literal =>
    { Member.property d.name with initial := some (o.stringQuotes.quote literal), verbatim := true }
  | none =>
    let name := if d.accessor then accessorProperty d.name else d.name
    match d.type with
    | some type => .typed name (Signal.resolveText known type)
    | none => .property name

/-- The warnings of a declared member. -/
def declaredWarnings (d : MemberSource) : List LogEntry :=
  match d.literal, d.type with
  | none, some type => Signal.warnings type
  | _, _ => []

/-- The member of a column. -/
def columnMember (table : String) (c : ColumnSchema) : Except BuildError Member :=
  match Column.type? c.type with
  | some type =>
    .ok (.typed c.name (.named type :: if c.nullable then [.undefined] else []))
  | none => .error (.unknownColumnType table c.name c.type)

/-- The members of the columns of the table of a model. -/
def columnMembers (m : ModelSource) (schema : Option Schema) : Except BuildError (List Member) :=
  match m.table with
  | none => .ok []
  | some table =>
    match schema.bind (·.table? table) with
    | some t => t.columns.mapM (columnMember table)
    | none => .error (.tableNotFound m.name table)

/-- The member of a relation: its target, as a collection if there are several. -/
def relationMember (r : RelationSource) : Member :=
  let target := Descriptor.named (Name.base r.target)
  let target := if r.kind.isToMany then target.asCollection else target
  let target :=
    match r.pivot with
    | some pivot => target.withAccessor pivot.accessor
    | none => target
  .typed (Name.snake r.name) [target]

/-- The member through which a pivot is reached. -/
def pivotMember (pivot : PivotSource) (used : PivotUse) : Member :=
  .typed pivot.accessor [((Descriptor.named used.interfaceName).requiring used.required).asPrimitive]

/-- The documented properties that are written, those that override the others last. -/
def documented (m : ModelSource) : List Doc.Property :=
  let shown := (Doc.properties m.doc).filter (·.tag != .write)
  shown.filter (·.tag != .override) ++ shown.filter (·.tag == .override)

/-- The member of a documented property. -/
def documentedMember (known : List String) (p : Doc.Property) : Member :=
  .typed p.name ((Signal.resolveText known p.type).map (·.asPrimitive))

/-- The constant that holds the qualified name. -/
def qualifiedNameMember (m : ModelSource) : Member :=
  (Member.constant "qualifiedClassName" (Json.string m.qualifiedName).text).withTypes [.named "string"]

/-- Every member that a model contributes, in the order in which they replace each other. -/
def contributions (m : ModelSource) (o : Options) (known : List String) (columns : List Member)
    (relations : List (RelationSource × Option (PivotSource × PivotUse))) : List Member :=
  m.constants.map (fun (name, v) => Constant.member name v) ++
    m.members.map (declaredMember o known) ++ columns ++ m.relations.map relationMember ++
    (relations.filterMap (·.2)).map (fun (pivot, used) => pivotMember pivot used) ++
    m.documented.map (documentedMember known) ++ [m.qualifiedNameMember]

/-- The entity with the import of `SetRequired`, if a member needs it. -/
def withUtility (o : Options) (e : Entity) : Entity :=
  if e.members.any fun member => member.writtenTypes.any (·.isWrapped) then
    e.addImport (.utility o.requiredSubsetModule)
  else e

/-- The names that types of a model may refer to. -/
def knownNames (m : ModelSource) (e : Entity) : List String :=
  e.importNames ++ [m.name]

/-- The entity of a model. Its table is looked up in `schema`; its pivots have to be registered. -/
def build (m : ModelSource) (o : Options) (schema : Option Schema) (pivots : PivotRegistry) :
    Logged BuildError Entity := do
  Logged.tell .debug .building ("building model " ++ m.qualifiedName)
  let relations ← Logged.ofExcept (m.pivotUses pivots)
  let start := (Entity.bare m.space m.name (.model (m.extended? o))).addImports (m.baseImports o relations)
  let known := m.knownNames start
  Logged.tellAll (m.members.flatMap declaredWarnings)
  let columns ← Logged.ofExcept (m.columnMembers schema)
  Logged.tellAll (m.documented.flatMap fun p => Signal.warnings p.type)
  return withUtility o (start.insertMembers (m.contributions o known columns relations))

end EntityScript.ModelSource
