import EntityScript.Text.Cut
/-!
# Name cases

Names of tables, relations and accessors in Pascal, camel and snake case. Underscores and hyphens
separate words; a capital starts one.
-/

namespace EntityScript.Name

open Text

/-- The characters that separate the words of a name. -/
def isSeparator (c : Char) : Bool :=
  c == '_' || c == '-'

/-- A word with its first character in upper case. -/
def capitalize : List Char → List Char
  | [] => []
  | c :: cs => upper c ++ cs

/-- A word with its first character in lower case. -/
def uncapitalize : List Char → List Char
  | [] => []
  | c :: cs => lower c ++ cs

def pascalChars (cs : List Char) : List Char :=
  (splitWhere isSeparator cs).flatMap capitalize

/-- A name without separators keeps its inner capitals. -/
def camelChars (cs : List Char) : List Char :=
  uncapitalize (if cs.any isSeparator then pascalChars cs else cs)

/-- A character after the first: a capital starts a word. -/
def snakeChar (c : Char) : List Char :=
  if isCapital c then '_' :: lower c else lower c

def snakeChars : List Char → List Char
  | [] => []
  | c :: cs => (lower c ++ cs.flatMap snakeChar).map fun d => if d = '-' then '_' else d

/-- Pascal case: `test_class_tag` is `TestClassTag`. -/
def pascal (s : String) : String :=
  String.ofList (pascalChars s.toList)

/-- Camel case: `test_class` and `TestClass` are `testClass`. -/
def camel (s : String) : String :=
  String.ofList (camelChars s.toList)

/-- Snake case: `testClasses` is `test_classes`. -/
def snake (s : String) : String :=
  String.ofList (snakeChars s.toList)

end EntityScript.Name
