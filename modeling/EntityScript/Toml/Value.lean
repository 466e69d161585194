import EntityScript.Number.Shortest
import EntityScript.Toml.Datetime
/-!
# TOML values

The values that a TOML document is made of. The entries of a table stand in order of their keys.
-/

namespace EntityScript.Toml

inductive Value
  | string (text : String)
  | integer (number : Int)
  | float (number : Binary64)
  /-- A number that no numeric type holds; it may only stand where nothing reads it. -/
  | oversized
  | boolean (truth : Bool)
  | datetime (moment : Datetime)
  | array (items : List Value)
  | table (entries : List (String × Value))
  deriving Repr, Inhabited

/-- The integers that are not oversized; the greatest are only good for keys that are ignored. -/
def isRepresentable (n : Int) : Bool :=
  -0x80000000000000000000000000000000 ≤ n && n < 0x100000000000000000000000000000000

/-- The integers of 64 bits. -/
def isWord (n : Int) : Bool :=
  -0x8000000000000000 ≤ n && n < 0x8000000000000000

namespace Value

mutual

/-- Whether no number in a value is oversized. -/
def isReadable : Value → Bool
  | oversized => false
  | array items => areReadable items
  | table entries => entriesReadable entries
  | _ => true

def areReadable : List Value → Bool
  | [] => true
  | v :: vs => isReadable v && areReadable vs

def entriesReadable : List (String × Value) → Bool
  | [] => true
  | (_, v) :: entries => isReadable v && entriesReadable entries

end

end Value

end EntityScript.Toml
