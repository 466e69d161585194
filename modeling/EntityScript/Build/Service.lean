import EntityScript.Build.Error
import EntityScript.Code.Service
import EntityScript.Input.Enumeration
/-!
# Services of enums

Exported methods are evaluated while the enum is built. Each has to return a list of cases of its own
enum.
-/

namespace EntityScript.EnumSource

/-- The name of a method in messages. -/
def methodName (e : EnumSource) (m : MethodSource) : String :=
  e.qualifiedName ++ "::" ++ m.name

/-- The case that an element of a returned list is. -/
def caseAt (e : EnumSource) (m : MethodSource) (index : Nat) : ServiceValue → Except BuildError String
  | .case owner case =>
    if owner = e.qualifiedName then
      if e.hasCase case then .ok case else .error (.serviceUnknownCase (e.methodName m) case index)
    else .error (.serviceWrongEnum (e.methodName m) (owner ++ "::" ++ case) index e.qualifiedName)
  | other => .error (.serviceNotCase (e.methodName m) other.typeName index e.qualifiedName)

/-- The cases that a returned list is made of, from an index on. -/
def casesFrom (e : EnumSource) (m : MethodSource) (index : Nat) :
    List ServiceValue → Except BuildError (List String)
  | [] => .ok []
  | item :: items => do
    let case ← e.caseAt m index item
    let cases ← casesFrom e m (index + 1) items
    return case :: cases

/-- The service of a method that is exported under a name. -/
def service (e : EnumSource) (m : MethodSource) (exportName : String) : Except BuildError ServiceMethod :=
  match e.run m with
  | .error message => .error (.serviceFailed (e.methodName m) message)
  | .ok (.array items) => (e.casesFrom m 0 items).map fun cases => { exportName, cases }
  | .ok other => .error (.serviceNotArray (e.methodName m) other.typeName)

/-- The methods that are exported, with their export names. -/
def exports (e : EnumSource) : List (MethodSource × String) :=
  e.methods.filterMap fun m => m.exportName?.map (m, ·)

/-- The services of an enum, in the order of its methods. -/
def services (e : EnumSource) : Except BuildError (List ServiceMethod) :=
  e.exports.mapM fun (m, exportName) => e.service m exportName

end EntityScript.EnumSource
