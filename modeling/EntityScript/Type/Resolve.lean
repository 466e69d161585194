import EntityScript.Log
import EntityScript.Signal.Parser
import EntityScript.Type.Descriptor
import EntityScript.Type.Expression
/-!
# Resolving signals

The TypeScript types of signals. Scalar keywords have types of their own, entity names resolve to
themselves if they are known, and all else is `any`.
-/

namespace EntityScript.Signal

/-- The type of each scalar keyword, in lower case. -/
def scalars : List (String × String) :=
  [("int", "number"), ("integer", "number"), ("float", "number"), ("double", "number"),
    ("number", "number"), ("numeric", "number"), ("bool", "boolean"), ("boolean", "boolean"),
    ("true", "boolean"), ("false", "boolean"), ("string", "string"), ("non-empty-string", "string"),
    ("class-string", "string"), ("null", "undefined"), ("void", "undefined")]

/-- The keywords of lists of anything, in lower case. -/
def bareLists : List String :=
  ["array", "list", "iterable"]

/-- The type of a name. -/
def nameType (known : List String) (name : String) : TypeExpr :=
  let short := Name.base name
  match scalars.lookup (Text.lowerAscii short) with
  | some type => .name type
  | none =>
    if bareLists.contains (Text.lowerAscii short) then .array .any
    else if known.contains short then .name short
    else .any

/-- Inside a type there is no `undefined`, only `null`. -/
def nestedName (type : TypeExpr) : TypeExpr :=
  if type.text = "undefined" then .null else type

mutual

/-- The inline type of a signal. -/
def expression (known : List String) : Signal → TypeExpr
  | named name => nestedName (nameType known name)
  | nullable inner =>
    if (expression known inner).isAny then expression known inner
    else .union [expression known inner, .null]
  | union items => .unite (expressions known items)
  | list value => .array (expression known value)
  | map key value => .index (expression known key) (expression known value)
  | shape fields => .object (fieldExpressions known fields)
  | generic name args =>
    if isCollection name then
      match (expressions known args).getLast? with
      | some element => .array element
      | none => .any
    else nameType known name

/-- The inline type of each signal. -/
def expressions (known : List String) : List Signal → List TypeExpr
  | [] => []
  | item :: items => expression known item :: expressions known items

/-- The inline type of each field. -/
def fieldExpressions (known : List String) :
    List (ShapeField Signal) → List (String × Bool × TypeExpr)
  | [] => []
  | ⟨key, optional, type⟩ :: fields =>
    (key, optional, expression known type) :: fieldExpressions known fields

end

/-- The alternatives of a union, each once; `any` absorbs the rest. -/
def uniteDescriptors (alternatives : List Descriptor) : List Descriptor :=
  if alternatives.any (·.isAny) then [.any] else Text.distinct alternatives

mutual

/-- The alternatives of the type of a member with this signal. -/
def resolve (known : List String) : Signal → List Descriptor
  | named name => [.named (nameType known name).text]
  | nullable inner => uniteDescriptors (resolve known inner ++ [.undefined])
  | union items => uniteDescriptors (resolveAll known items).flatten
  | list value => [.named (expression known (list value)).text]
  | map key value => [.named (expression known (map key value)).text]
  | shape fields => [.named (expression known (shape fields)).text]
  | generic name args =>
    if isCollection name then
      match (resolveAll known args).getLast? with
      | some element => element.map (·.asCollection)
      | none => [.any]
    else [.named (nameType known name).text]

/-- The alternatives of each signal. -/
def resolveAll (known : List String) : List Signal → List (List Descriptor)
  | [] => []
  | item :: items => resolve known item :: resolveAll known items

end

/-- The alternatives of the type that a text writes; a text that is no signal is `any`. -/
def resolveText (known : List String) (input : String) : List Descriptor :=
  match parse input with
  | .ok signal => resolve known signal
  | .error _ => [.any]

/-- The warning that resolving a text gives. -/
def warnings (input : String) : List LogEntry :=
  match parse input with
  | .ok _ => []
  | .error e => [⟨.warn, .types, e.message ++ "; using any"⟩]

end EntityScript.Signal
