import EntityScript.Options
/-!
# Type descriptors

One alternative of the type of a member: a named type, perhaps as a collection, perhaps with keys
that `SetRequired` makes required.
-/

namespace EntityScript

structure Descriptor where
  name : String
  collection : Bool := false
  /-- Values of this type are never constructed, even if it names an entity. -/
  forcedPrimitive : Bool := false
  /-- Pivot columns that are required, each once. -/
  requiredColumns : Option (List String) := none
  /-- The pivot property that is required. -/
  accessor : Option String := none
  deriving Repr, DecidableEq

namespace Descriptor

def named (name : String) : Descriptor :=
  { name }

def any : Descriptor := named "any"

/-- Marks a member as optional; it is never written. -/
def undefined : Descriptor := named "undefined"

def asCollection (d : Descriptor) : Descriptor :=
  { d with collection := true }

def asPrimitive (d : Descriptor) : Descriptor :=
  { d with forcedPrimitive := true }

def requiring (d : Descriptor) (columns : List String) : Descriptor :=
  { d with requiredColumns := some (Text.distinct columns) }

def withAccessor (d : Descriptor) (accessor : String) : Descriptor :=
  { d with accessor := some accessor }

def isAny (d : Descriptor) : Bool := d.name == "any"
def isUndefined (d : Descriptor) : Bool := d.name == "undefined"
def isDate (d : Descriptor) : Bool := d.name == "Date"

/-- The types that have no constructor. -/
def primitives : List String :=
  ["string", "number", "boolean", "any", "undefined", "null"]

def isPrimitive (d : Descriptor) : Bool :=
  primitives.contains d.name

/-- Whether `new Name(…)` builds values of this type from raw ones. -/
def isConstructible (d : Descriptor) : Bool :=
  !d.forcedPrimitive && !d.isPrimitive && !d.isDate && d.name.toList.all Text.isWordChar

/-- The keys that `SetRequired` makes required: the columns if there are some, else the accessor. -/
def requiredKeys? (d : Descriptor) : Option (List String) :=
  match d.requiredColumns with
  | some (column :: columns) => some (column :: columns)
  | _ => d.accessor.map ([·])

/-- Whether a regular file wraps the type in `SetRequired`. -/
def isWrapped (d : Descriptor) : Bool :=
  d.requiredKeys?.isSome

/-- The name of the type in a context; dates are texts in interfaces. -/
def nameText (d : Descriptor) (ctx : Context) : String :=
  if d.isDate && ctx.interface then "string" else ctx.rename d.name

/-- The type without its list brackets. -/
def elementText (d : Descriptor) (ctx : Context) : String :=
  match if ctx.newModel then none else d.requiredKeys? with
  | some keys =>
    "SetRequired<" ++ d.nameText ctx ++ ", " ++
      Text.join " | " (keys.map ctx.options.stringQuotes.quote) ++ ">"
  | none => d.nameText ctx

/-- The type as it is written. -/
def text (d : Descriptor) (ctx : Context) : String :=
  d.elementText ctx ++ (if d.collection then "[]" else "")

end Descriptor

end EntityScript
