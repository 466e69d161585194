import EntityScript.Text.Cut
/-!
# Type expressions

Inline TypeScript types and their text.
-/

namespace EntityScript

inductive TypeExpr
  | name (name : String)
  /-- `Array<T>` -/
  | array (element : TypeExpr)
  /-- `{ [key: K]: V }` -/
  | index (key value : TypeExpr)
  /-- `{ k: T, l?: U }`: keys with whether they are optional. -/
  | object (fields : List (String × Bool × TypeExpr))
  /-- `T | U` -/
  | union (items : List TypeExpr)
  deriving Repr

namespace TypeExpr

def any : TypeExpr := name "any"
def null : TypeExpr := name "null"

mutual

/-- The text of a type. -/
def text : TypeExpr → String
  | name n => n
  | array element => "Array<" ++ element.text ++ ">"
  | index key value => "\x7b [key: " ++ key.text ++ "]: " ++ value.text ++ " \x7d"
  | object [] => "\x7b\x7d"
  | object (field :: fields) => "\x7b " ++ Text.join ", " (fieldTexts (field :: fields)) ++ " \x7d"
  | union items => Text.join " | " (texts items)

/-- The text of each type. -/
def texts : List TypeExpr → List String
  | [] => []
  | item :: items => item.text :: texts items

/-- The text of each field. -/
def fieldTexts : List (String × Bool × TypeExpr) → List String
  | [] => []
  | (key, optional, type) :: fields =>
    (key ++ (if optional then "?" else "") ++ ": " ++ type.text) :: fieldTexts fields

end

/-- Whether a type is written `any`. -/
def isAny (t : TypeExpr) : Bool :=
  t.text == "any"

/-- The first of the types of each text. -/
def distinctTexts : List TypeExpr → List TypeExpr
  | [] => []
  | t :: ts => t :: (distinctTexts ts).filter (fun u => !(u.text == t.text))

/-- A union without repetitions; `any` absorbs the rest. -/
def unite (items : List TypeExpr) : TypeExpr :=
  if items.any isAny then any else union (distinctTexts items)

end TypeExpr

end EntityScript
