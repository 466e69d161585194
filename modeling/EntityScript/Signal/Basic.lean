import EntityScript.Name.Qualified
/-!
# Type signals

The types that documentation tags and declared members are written with: scalar keywords, entity
names, unions, lists, shapes and generics.
-/

namespace EntityScript

/-- A key of a shape with its type. -/
structure ShapeField (τ : Type) where
  key : String
  optional : Bool
  type : τ
  deriving Repr

inductive Signal
  /-- A scalar keyword or an entity name. -/
  | named (name : String)
  /-- `?T` -/
  | nullable (inner : Signal)
  /-- `A|B` -/
  | union (items : List Signal)
  /-- `T[]` or `array<T>` -/
  | list (value : Signal)
  /-- `array<K, V>` -/
  | map (key value : Signal)
  /-- `array{k: T, l?: U}` -/
  | shape (fields : List (ShapeField Signal))
  /-- `Name<A, B>` for a name that is no list keyword. -/
  | generic (name : String) (args : List Signal)
  deriving Repr, Inhabited

namespace Signal

/-- The short names that stand for lists, in lower case. -/
def listKeywords : List String :=
  ["array", "list", "iterable", "non-empty-array", "non-empty-list"]

/-- Whether a name stands for a list, in any namespace and case. -/
def isListKeyword (name : String) : Bool :=
  listKeywords.contains (Text.lowerAscii (Name.base name))

/-- Whether a name is the collection class, in any namespace. -/
def isCollection (name : String) : Bool :=
  Name.base name == "Collection"

end Signal

end EntityScript
