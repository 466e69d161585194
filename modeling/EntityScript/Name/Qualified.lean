import EntityScript.Text.Cut
/-!
# Qualified names

A qualified name is a namespace and a short name with backslashes between the parts.
-/

namespace EntityScript.Name

open Text

def isBackslash (c : Char) : Bool :=
  c == '\\'

/-- The characters after the last backslash. -/
def afterLastBackslash : List Char → List Char
  | [] => []
  | c :: cs => if cs.any isBackslash then afterLastBackslash cs else if isBackslash c then cs else c :: cs

/-- The short name: `App\Models\Tag` is `Tag`. -/
def base (qualified : String) : String :=
  String.ofList (afterLastBackslash (qualified.toList.dropWhile isBackslash))

/-- A namespace without its outer backslashes. -/
def trimBackslashes (space : String) : String :=
  String.ofList (dropEndWhile isBackslash (space.toList.dropWhile isBackslash))

/-- The name `name` of a namespace, which may be empty. -/
def qualify (space name : String) : String :=
  if trimBackslashes space = "" then name else trimBackslashes space ++ "\\" ++ name

end EntityScript.Name
