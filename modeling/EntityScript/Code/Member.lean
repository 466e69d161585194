import EntityScript.Type.Descriptor
/-!
# Members

The properties and constants of a generated entity, and their declarations.
-/

namespace EntityScript

inductive Access
  | property
  /-- `static readonly` in classes; interfaces keep constants in an object beside them. -/
  | constant
  deriving Repr, DecidableEq

structure Member where
  name : String
  access : Access := .property
  /-- The alternatives of the type; without any, the type is `any`. -/
  types : Option (List Descriptor) := none
  /-- Source text, as JSON unless the member is verbatim. -/
  initial : Option String := none
  optional : Bool := false
  /-- A hand-written member: carried along, never written. -/
  verbatim : Bool := false
  deriving Repr, DecidableEq

namespace Member

def property (name : String) : Member :=
  { name }

def constant (name initial : String) : Member :=
  { name, access := .constant, initial := some initial }

/-- An `undefined` alternative makes the member optional. -/
def withTypes (m : Member) (types : List Descriptor) : Member :=
  { m with types := some types, optional := m.optional || types.any (·.isUndefined) }

/-- A property of a type. -/
def typed (name : String) (types : List Descriptor) : Member :=
  (property name).withTypes types

def isConstant (m : Member) : Bool :=
  m.access == .constant

/-- The alternatives that are written: all but `undefined`. -/
def writtenTypes (m : Member) : List Descriptor :=
  (m.types.getD []).filter (!·.isUndefined)

/-- The written alternative, if there is exactly one. -/
def soleType? (m : Member) : Option Descriptor :=
  match m.writtenTypes with
  | [d] => some d
  | _ => none

/-- Whether the one written alternative is a collection. -/
def isSoleCollection (m : Member) : Bool :=
  m.soleType?.any (·.collection)

/-- The type as it is written; `any` when nothing is. -/
def typeText (m : Member) (ctx : Context) : String :=
  match Text.distinct (m.writtenTypes.map (·.text ctx)) with
  | [] => "any"
  | texts => Text.join " | " texts

/-- Whether the declaration has a `?`: every property but a lone collection in a class that need
not be optional. -/
def isMarked (m : Member) (ctx : Context) : Bool :=
  !m.isConstant && (ctx.forceOptional || ctx.interface || !m.isSoleCollection)

/-- The initial value in the quotes of the context. -/
def initialText? (m : Member) (ctx : Context) : Option String :=
  m.initial.map fun value => if m.verbatim then value else ctx.options.stringQuotes.requote value

/-- What stands before the name. -/
def modifiers (m : Member) (ctx : Context) : String :=
  if ctx.interface then "" else if m.isConstant then "public static readonly " else "public "

/-- What stands after the type. -/
def assignment (m : Member) (ctx : Context) : String :=
  match if ctx.interface then none else m.initialText? ctx with
  | some value => " = " ++ value
  | none => ""

/-- The declaration, without its terminator. -/
def text (m : Member) (ctx : Context) : String :=
  m.modifiers ctx ++ m.name ++ (if m.isMarked ctx then "?" else "") ++ ": " ++ m.typeText ctx ++
    m.assignment ctx

end Member

end EntityScript
