import EntityScript.Build.Service
import EntityScript.Entity
import EntityScript.Log
/-!
# Building enums

The entity of an enum: a constant for each case, and its services.
-/

namespace EntityScript.EnumSource

/-- The value of a case; a case without one has its name. -/
def caseText (quotes : QuoteStyle) (c : CaseSource) : String :=
  match c.value with
  | some (.integer n) => toString n
  | some (.string s) => quotes.quote s
  | none => quotes.quote c.name

/-- The entity of an enum with its services. -/
def entity (e : EnumSource) (o : Options) (services : List ServiceMethod) : Entity :=
  ((Entity.bare e.space e.name (.enumeration [])).insertMembers
    (e.cases.map fun c => .constant c.name (caseText o.stringQuotes c))).withServices services

/-- The entity of an enum. -/
def build (e : EnumSource) (o : Options) : Logged BuildError Entity := do
  Logged.tell .debug .building ("building enum " ++ e.qualifiedName)
  let services ← Logged.ofExcept e.services
  return e.entity o services

end EntityScript.EnumSource
