import EntityScript.Code.Fragment
/-!
# Exported objects

`export const Name = { … }`: the constants of an interface file and the services of an enum file.
-/

namespace EntityScript

inductive ObjectValue
  /-- An expression as it stands. -/
  | expression (text : String)
  /-- An arrow function. -/
  | arrow (params : String) (body : List Fragment)
  deriving Repr

structure ExportedObject where
  name : String
  properties : List (String × ObjectValue)
  deriving Repr

namespace ExportedObject

/-- The fragment of one property. -/
def property : String × ObjectValue → Fragment
  | (key, .expression text) => .line (key ++ ": " ++ text ++ ",")
  | (key, .arrow params body) => .block (key ++ ": (" ++ params ++ ") => \x7b") body (some "\x7d,")

/-- The object, without a terminator. -/
def fragment (o : ExportedObject) : Fragment :=
  .block ("export const " ++ o.name ++ " = \x7b") (o.properties.map property) (some "\x7d")

end ExportedObject

end EntityScript
