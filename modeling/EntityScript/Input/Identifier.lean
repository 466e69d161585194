import EntityScript.Text.Char
/-!
# Identifiers

The names that generated declarations may have.
-/

namespace EntityScript.Identifier

/-- Why a name is no identifier. -/
inductive Fault
  | empty
  | badStart
  | badCharacter
  | reserved
  deriving Repr, DecidableEq

def Fault.message : Fault → String
  | empty => "name cannot be empty"
  | badStart => "name must start with a letter or underscore"
  | badCharacter => "name must contain only letters, numbers, and underscores"
  | reserved => "name is a TypeScript reserved word"

def reservedWords : List String :=
  ["break", "case", "catch", "class", "const", "continue", "debugger", "default", "delete", "do",
    "else", "enum", "export", "extends", "false", "finally", "for", "function", "if", "import", "in",
    "instanceof", "new", "null", "return", "super", "switch", "this", "throw", "true", "try", "typeof",
    "var", "void", "while", "with"]

/-- The first fault of a name. -/
def fault? (name : String) : Option Fault :=
  match name.toList with
  | [] => some .empty
  | c :: cs =>
    if !(c.isAlpha || c == '_') then some .badStart
    else if !cs.all Text.isWordChar then some .badCharacter
    else if reservedWords.contains name then some .reserved
    else none

end EntityScript.Identifier
