import EntityScript.Input.Error
import EntityScript.Name.Qualified
import EntityScript.Toml.Decode
/-!
# Enum descriptions

An enum with its cases and the methods that its file may export. What a method returns is described
with it, so methods are evaluated here.
-/

namespace EntityScript

inductive CaseValue
  | integer (number : Int)
  | string (text : String)
  deriving Repr, DecidableEq

structure CaseSource where
  name : String
  value : Option CaseValue
  deriving Repr, DecidableEq

/-- Whether a method is exported, and perhaps under which name. -/
inductive ExportMark
  | flag (exported : Bool)
  | name (name : String)
  deriving Repr, DecidableEq

structure MethodSource where
  name : String
  isPublic : Bool
  isStatic : Bool
  mark : ExportMark
  /-- What the method returns. -/
  returns : Option Toml.Value
  /-- The message with which the method fails. -/
  throws : Option String
  deriving Repr

structure EnumSource where
  space : String
  name : String
  cases : List CaseSource
  methods : List MethodSource
  deriving Repr

/-- The name under which a method is exported; only public static ones are. -/
def MethodSource.exportName? (m : MethodSource) : Option String :=
  if !m.isPublic || !m.isStatic then none
  else
    match m.mark with
    | .flag true => some m.name
    | .flag false => none
    | .name name => some name

/-- What a method gives when it is evaluated. -/
inductive ServiceValue
  | null
  | string (text : String)
  | integer (number : Int)
  | float (number : Binary64)
  | boolean (truth : Bool)
  | array (items : List ServiceValue)
  | object
  /-- A case of the enum with this qualified name. -/
  | case (enumName case : String)
  deriving Repr, Inhabited

namespace ServiceValue

/-- The name of the type of a value. -/
def typeName : ServiceValue → String
  | null => "null"
  | string _ => "string"
  | integer _ => "integer"
  | float _ => "float"
  | boolean _ => "boolean"
  | array _ => "array"
  | object => "object"
  | case enumName _ => enumName

end ServiceValue

namespace EnumSource

open Toml.Decode

def qualifiedName (e : EnumSource) : String :=
  Name.qualify e.space e.name

def hasCase (e : EnumSource) (name : String) : Bool :=
  e.cases.any (·.name == name)

/-- The enum that a reference means: a name with a backslash is complete, another one belongs to the
namespace of this enum, and without a name it is this enum. -/
def referenced (e : EnumSource) : Option String → String
  | some name =>
    if name.toList.any Name.isBackslash then
      String.ofList (name.toList.dropWhile Name.isBackslash)
    else Name.qualify e.space name
  | none => e.qualifiedName

/-- The text under a key, if it is one. -/
def textAt? (key : String) (entries : List (String × Toml.Value)) : Option String :=
  (entries.lookup key).bind string?

mutual

/-- The value of a method of this enum; a table with a `case` refers to a case. -/
def evaluate (e : EnumSource) : Toml.Value → ServiceValue
  | .string s => .string s
  | .integer n => .integer n
  | .float x => .float x
  | .oversized => .null
  | .boolean b => .boolean b
  | .datetime d => .string d.text
  | .array items => .array (evaluateAll e items)
  | .table entries =>
    match textAt? "case" entries with
    | some case => .case (e.referenced (textAt? "enum" entries)) case
    | none => .object

def evaluateAll (e : EnumSource) : List Toml.Value → List ServiceValue
  | [] => []
  | v :: vs => evaluate e v :: evaluateAll e vs

end

/-- What a method returns, or the message with which it fails. -/
def run (e : EnumSource) (m : MethodSource) : Except String ServiceValue :=
  match m.throws, m.returns with
  | some message, _ => .error message
  | none, some v => .ok (e.evaluate v)
  | none, none => .ok .null

def decodeCaseValue? : Toml.Value → Option CaseValue
  | .integer n => if Toml.isWord n then some (.integer n) else none
  | .string s => some (.string s)
  | _ => none

def decodeCase? (v : Toml.Value) : Option CaseSource := do
  let record ← record? ["name", "value"] false v
  let name ← required? record "name" string?
  let value ← optional? record "value" none fun v => (decodeCaseValue? v).map some
  return { name, value }

def decodeMark? : Toml.Value → Option ExportMark
  | .boolean b => some (.flag b)
  | .string s => some (.name s)
  | _ => none

def decodeMethod? (v : Toml.Value) : Option MethodSource := do
  let record ← record? ["name", "public", "static", "export", "returns", "throws"] false v
  let name ← required? record "name" string?
  let isPublic ← optional? record "public" true boolean?
  let isStatic ← optional? record "static" true boolean?
  let mark ← optional? record "export" (.flag false) decodeMark?
  let returns ← optional? record "returns" none fun v => (value? v).map some
  let throws ← optional? record "throws" none fun v => (string? v).map some
  return { name, isPublic, isStatic, mark, returns, throws }

/-- The enum that a table describes. -/
def decode? (v : Toml.Value) : Option EnumSource := do
  let record ← record? ["namespace", "name", "cases", "methods"] false v
  let space ← optional? record "namespace" "" string?
  let name ← required? record "name" string?
  let cases ← optional? record "cases" [] (list? decodeCase?)
  let methods ← optional? record "methods" [] (list? decodeMethod?)
  return { space, name, cases, methods }

/-- Succeeds if every case has an identifier of its own; `seen` are the names before. -/
def checkCases (src : String) (seen : List String) : List CaseSource → Except InputError Unit
  | [] => .ok ()
  | c :: cs => do
    Identifier.check src "enum case" c.name
    if seen.contains c.name then throw (.ofWhole (.repeatedCase c.name))
    checkCases src (c.name :: seen) cs

/-- Succeeds if every export has a name of its own; `seen` are the names before. -/
def checkExports (seen : List String) : List String → Except InputError Unit
  | [] => .ok ()
  | name :: names =>
    if seen.contains name then .error (.ofWhole (.repeatedExport name))
    else checkExports (name :: seen) names

/-- Succeeds if the enum can be generated as it is described. -/
def check (src : String) (e : EnumSource) : Except InputError Unit := do
  Identifier.check src "enum" e.name
  checkCases src [] e.cases
  checkExports [] (e.methods.filterMap (·.exportName?))

end EnumSource

end EntityScript
