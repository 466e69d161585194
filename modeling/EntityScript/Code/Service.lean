import EntityScript.Code.Object
import EntityScript.Options
/-!
# Service objects

The exported functions of an enum file, each of which returns a fixed list of cases.
-/

namespace EntityScript

/-- An exported function and the cases that it returns. -/
structure ServiceMethod where
  exportName : String
  cases : List String
  deriving Repr, DecidableEq

namespace ServiceMethod

/-- The statements of the function. -/
def body (m : ServiceMethod) (enumName : String) (ctx : Context) : List Fragment :=
  match m.cases with
  | [] => [.line ("return []" ++ ctx.terminator)]
  | cases =>
    [.block "return [" (cases.map fun c => .line (enumName ++ "." ++ c ++ ","))
      (some ("]" ++ ctx.terminator))]

/-- The service object of an enum. -/
def object (enumName : String) (methods : List ServiceMethod) (ctx : Context) : ExportedObject :=
  { name := enumName ++ "Service"
    properties := methods.map fun m => (m.exportName, .arrow "" (m.body enumName ctx)) }

end ServiceMethod

end EntityScript
