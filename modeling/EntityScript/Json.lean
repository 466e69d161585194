import EntityScript.Number.Shortest
import EntityScript.Text.Cut
/-!
# JSON

JSON values and their compact text, in which generated constants are written.
-/

namespace EntityScript

inductive Json
  | null
  | boolean (truth : Bool)
  | integer (number : Int)
  | float (number : Binary64)
  | string (text : String)
  | array (items : List Json)
  | object (entries : List (String × Json))
  deriving Repr, Inhabited

namespace Json

/-- The escapes of one letter. -/
def letterEscapes : List (Char × Char) :=
  [('"', '"'), ('\\', '\\'), ('\x08', 'b'), ('\x0c', 'f'), ('\n', 'n'), ('\r', 'r'), ('\t', 't')]

/-- A character inside a string: quotes, backslashes and control characters are escaped. -/
def escapeChar (c : Char) : List Char :=
  match letterEscapes.lookup c with
  | some letter => ['\\', letter]
  | none =>
    if c.toNat < 0x20 then
      ['\\', 'u', '0', '0', Nat.digitChar (c.toNat / 16), Nat.digitChar (c.toNat % 16)]
    else [c]

/-- The literal of a string. -/
def quote (s : String) : String :=
  String.ofList ('"' :: (s.toList.flatMap escapeChar ++ ['"']))

mutual

/-- The compact text of a value. -/
def text : Json → String
  | null => "null"
  | boolean truth => if truth then "true" else "false"
  | integer number => toString number
  | float number => number.text
  | string s => quote s
  | array items => "[" ++ Text.join "," (texts items) ++ "]"
  | object entries => "\x7b" ++ Text.join "," (entryTexts entries) ++ "\x7d"

/-- The text of each value. -/
def texts : List Json → List String
  | [] => []
  | item :: items => item.text :: texts items

/-- The text of each entry. -/
def entryTexts : List (String × Json) → List String
  | [] => []
  | (key, value) :: entries => (quote key ++ ":" ++ value.text) :: entryTexts entries

end

end Json

end EntityScript
