import EntityScript.Code.Member
import EntityScript.Json
import EntityScript.Toml.Value
/-!
# Constants

TOML values as constants of a generated entity: their JSON text and their type.
-/

namespace EntityScript

namespace Json

mutual

/-- The JSON of a TOML value; a number that is not finite has none and is `null`. -/
def ofToml : Toml.Value → Json
  | .string s => .string s
  | .integer n => .integer n
  | .float (.finite negative mantissa exponent h) => .float (.finite negative mantissa exponent h)
  | .float _ | .oversized => .null
  | .boolean b => .boolean b
  | .datetime d => .string d.text
  | .array items => .array (ofTomls items)
  | .table entries => .object (ofEntries entries)

def ofTomls : List Toml.Value → List Json
  | [] => []
  | v :: vs => ofToml v :: ofTomls vs

def ofEntries : List (String × Toml.Value) → List (String × Json)
  | [] => []
  | (key, v) :: entries => (key, ofToml v) :: ofEntries entries

end

end Json

namespace Constant

/-- The type of a value that is no array or table. -/
def scalarType? : Toml.Value → Option String
  | .string _ | .datetime _ => some "string"
  | .integer _ | .float _ | .oversized => some "number"
  | .boolean _ => some "boolean"
  | .array _ | .table _ => none

/-- The type that all elements of an array have, if there is one. -/
def elementType : List Toml.Value → String
  | [] => "any"
  | first :: rest =>
    match scalarType? first with
    | some type => if rest.all (scalarType? · == some type) then type else "any"
    | none => "any"

/-- The type that a constant is declared with. -/
def type (v : Toml.Value) : Descriptor :=
  match scalarType? v, v with
  | some type, _ => .named type
  | none, .array items => .named ("Array<" ++ elementType items ++ ">")
  | none, _ => .any

/-- The member of a constant. -/
def member (name : String) (v : Toml.Value) : Member :=
  (Member.constant name (Json.ofToml v).text).withTypes [type v]

end Constant

end EntityScript
