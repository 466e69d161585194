import EntityScript.Quote
import EntityScript.Text.Cut
/-!
# Import lines

Imports of a module, without a terminator.
-/

namespace EntityScript

structure ModuleImport where
  module : String
  default? : Option String := none
  named : List String := []
  typeOnly : Bool := false
  deriving Repr

/-- The import line. -/
def ModuleImport.text (i : ModuleImport) (quotes : QuoteStyle) : String :=
  let keyword := if i.typeOnly then "import type " else "import "
  let names := "\x7b " ++ Text.join ", " i.named ++ " \x7d"
  match i.default?, i.named with
  | none, [] => "import " ++ quotes.quote i.module
  | none, _ :: _ => keyword ++ names ++ " from " ++ quotes.quote i.module
  | some default, [] => keyword ++ default ++ " from " ++ quotes.quote i.module
  | some default, _ :: _ => keyword ++ default ++ ", " ++ names ++ " from " ++ quotes.quote i.module

end EntityScript
