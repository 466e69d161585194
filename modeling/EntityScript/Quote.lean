/-!
# Quotes

String literals of the generated code in either quote style, and JSON text brought into that style.
-/

namespace EntityScript

/-- The quote character of generated string literals. -/
inductive QuoteStyle
  | single
  | double
  deriving Repr, DecidableEq, Inhabited

namespace QuoteStyle

def char : QuoteStyle → Char
  | single => '\''
  | double => '"'

/-- A character inside a literal: the quote and the backslash are escaped. -/
def escapeChar (style : QuoteStyle) (c : Char) : List Char :=
  if c = style.char ∨ c = '\\' then ['\\', c] else [c]

/-- The literal of a text. -/
def quote (style : QuoteStyle) (text : String) : String :=
  String.ofList (style.char :: (text.toList.flatMap style.escapeChar ++ [style.char]))

/-- JSON text with its literals in single quotes: an escaped double quote loses its escape, every
other escape stays, and a bare single quote gains one. -/
def toSingleQuotes : List Char → List Char
  | [] => []
  | '\\' :: '"' :: cs => '"' :: toSingleQuotes cs
  | '\\' :: c :: cs => '\\' :: c :: toSingleQuotes cs
  | '"' :: cs => '\'' :: toSingleQuotes cs
  | '\'' :: cs => '\\' :: '\'' :: toSingleQuotes cs
  | c :: cs => c :: toSingleQuotes cs

/-- JSON text in the quote style. -/
def requote (text : String) : QuoteStyle → String
  | double => text
  | single => String.ofList (toSingleQuotes text.toList)

end QuoteStyle

end EntityScript
