import EntityScript.Toml.Document
import EntityScript.Toml.Scalar
/-!
# Reading TOML

From text to statements: keys, strings, arrays, inline tables and headers of TOML 1.1. Each reader
gives what it read with the text after it.
-/

namespace EntityScript.Toml

/-! ## Blanks and comments -/

def isSpace (c : Char) : Bool :=
  c == ' ' || c == '\t'

/-- The control characters that no comment or string may hold. -/
def isForbidden (c : Char) : Bool :=
  (c.toNat < 0x20 && c != '\t') || c.toNat == 0x7f

def skipSpaces (cs : List Char) : List Char :=
  cs.dropWhile isSpace

/-- The text after a line end. -/
def lineEnd? : List Char → Option (List Char)
  | '\n' :: cs => some cs
  | '\r' :: '\n' :: cs => some cs
  | _ => none

/-- The text after a comment, if there is one. -/
def skipComment : List Char → List Char
  | '#' :: cs => cs.dropWhile (!isForbidden ·)
  | cs => cs

/-- The text after the spaces and the comment that may end a line. -/
def skipToLineEnd (cs : List Char) : List Char :=
  skipComment (skipSpaces cs)

/-- The text after all blanks, comments and line ends. Each line takes one unit of fuel. -/
def skipLines : Nat → List Char → List Char
  | 0, cs => cs
  | fuel + 1, cs =>
    match lineEnd? (skipToLineEnd cs) with
    | some rest => skipLines fuel rest
    | none => skipToLineEnd cs

/-- The text after all blanks, comments and line ends. -/
def skipBlankLines (cs : List Char) : List Char :=
  skipLines cs.length cs

/-! ## Strings -/

/-- The escapes of one letter. -/
def letterEscapes : List (Char × Char) :=
  [('b', '\x08'), ('t', '\t'), ('n', '\n'), ('f', '\x0c'), ('r', '\r'), ('e', '\x1b'), ('"', '"'),
    ('\\', '\\')]

/-- The number of hexadecimal digits of the other escapes. -/
def escapeWidths : List (Char × Nat) :=
  [('x', 2), ('u', 4), ('U', 8)]

/-- The character after a backslash. -/
def escape? : List Char → Option (Char × List Char)
  | [] => none
  | letter :: cs =>
    match letterEscapes.lookup letter with
    | some c => some (c, cs)
    | none => do
      let width ← escapeWidths.lookup letter
      let digits := cs.take width
      let code := Scalar.valueIn 16 digits
      if digits.length = width ∧ digits.all Scalar.isHexDigit ∧ code.isValidChar then
        some (Char.ofNat code, cs.drop width)
      else none

/-- The rest of a string in double quotes. -/
def basicString? : Nat → List Char → Option (List Char × List Char)
  | 0, _ => none
  | _ + 1, [] => none
  | _ + 1, '"' :: cs => some ([], cs)
  | fuel + 1, '\\' :: cs => do
    let (c, cs) ← escape? cs
    let (text, cs) ← basicString? fuel cs
    return (c :: text, cs)
  | fuel + 1, c :: cs =>
    if isForbidden c then none
    else do
      let (text, cs) ← basicString? fuel cs
      return (c :: text, cs)

/-- The rest of a string in single quotes. -/
def literalString? : List Char → Option (List Char × List Char)
  | [] => none
  | c :: cs =>
    if c = '\'' then some ([], cs)
    else if isForbidden c then none
    else do
      let (text, cs) ← literalString? cs
      return (c :: text, cs)

/-- The text after the closing quotes of a string of several lines, with the one or two quotes that
may stand before them. -/
def closing? (quote : Char) (cs : List Char) : Option (List Char × List Char) :=
  match (cs.takeWhile (· == quote)).length with
  | 0 | 1 | 2 => none
  | 3 => some ([], cs.drop 3)
  | 4 => some ([quote], cs.drop 4)
  | _ => some ([quote, quote], cs.drop 5)

/-- Whether a backslash before this text ends its line. -/
def endsLine (cs : List Char) : Bool :=
  (lineEnd? (skipSpaces cs)).isSome

/-- The text after the blanks and line ends that a backslash at the end of a line hides. -/
def skipHidden : List Char → List Char
  | '\r' :: '\n' :: cs => skipHidden cs
  | c :: cs => if isSpace c || c == '\n' then skipHidden cs else c :: cs
  | [] => []

/-- The rest of a string in triple double quotes. -/
def longBasicString? : Nat → List Char → Option (List Char × List Char)
  | 0, _ => none
  | _ + 1, [] => none
  | fuel + 1, '\\' :: cs =>
    if endsLine cs then longBasicString? fuel (skipHidden cs)
    else do
      let (c, cs) ← escape? cs
      let (text, cs) ← longBasicString? fuel cs
      return (c :: text, cs)
  | fuel + 1, c :: cs =>
    match closing? '"' (c :: cs) with
    | some found => some found
    | none =>
      if isForbidden c && (lineEnd? (c :: cs)).isNone then none
      else do
        let (text, cs) ← longBasicString? fuel cs
        return (c :: text, cs)

/-- The rest of a string in triple single quotes. -/
def longLiteralString? : List Char → Option (List Char × List Char)
  | [] => none
  | c :: cs =>
    match closing? '\'' (c :: cs) with
    | some found => some found
    | none =>
      if isForbidden c && (lineEnd? (c :: cs)).isNone then none
      else do
        let (text, cs) ← longLiteralString? cs
        return (c :: text, cs)

/-- The text after the line end that may follow the opening quotes. -/
def skipFirstLineEnd (cs : List Char) : List Char :=
  (lineEnd? cs).getD cs

/-- A string of one line. -/
def shortString? : List Char → Option (List Char × List Char)
  | '"' :: cs => basicString? (cs.length + 1) cs
  | '\'' :: cs => literalString? cs
  | _ => none

/-- A string of any kind. -/
def string? : List Char → Option (List Char × List Char)
  | '"' :: '"' :: '"' :: cs => longBasicString? (cs.length + 1) (skipFirstLineEnd cs)
  | '\'' :: '\'' :: '\'' :: cs => longLiteralString? (skipFirstLineEnd cs)
  | cs => shortString? cs

/-! ## Keys -/

def isBareKeyChar (c : Char) : Bool :=
  c.isAlphanum || c == '_' || c == '-'

/-- One part of a key. -/
def keyPart? (cs : List Char) : Option (String × List Char) :=
  match shortString? cs with
  | some (text, rest) => some (String.ofList text, rest)
  | none =>
    if (cs.takeWhile isBareKeyChar).isEmpty then none
    else some (String.ofList (cs.takeWhile isBareKeyChar), cs.dropWhile isBareKeyChar)

/-- How many parts a key may have. -/
def maxKeyParts : Nat := 80

/-- A key of at most `parts` parts with the path before it, and the text after it. -/
def keyWithin? : Nat → List Char → Option (List String × String × List Char)
  | 0, _ => none
  | parts + 1, cs => do
    let (part, cs) ← keyPart? (skipSpaces cs)
    match skipSpaces cs with
    | '.' :: cs => do
      let (path, key, cs) ← keyWithin? parts cs
      return (part :: path, key, cs)
    | cs => return ([], part, cs)

/-- A key with the path before it, and the text after it. -/
def key? (cs : List Char) : Option (List String × String × List Char) :=
  keyWithin? maxKeyParts cs

/-! ## Values -/

/-- The characters that end a bare scalar. -/
def endsScalar (c : Char) : Bool :=
  [' ', '\t', '\n', '\r', ',', ']', '}', '#'].contains c

/-- A bare scalar. A space may stand between a date and a time. -/
def scalar? (cs : List Char) : Option (Value × List Char) :=
  let word := cs.takeWhile (!endsScalar ·)
  let rest := cs.dropWhile (!endsScalar ·)
  match Datetime.date? word, rest with
  | some (_, []), ' ' :: d :: more =>
    if d.isDigit then
      let time := (d :: more).takeWhile (!endsScalar ·)
      (Scalar.read? (word ++ ' ' :: time)).map fun v => (v, (d :: more).dropWhile (!endsScalar ·))
    else (Scalar.read? word).map fun v => (v, rest)
  | _, _ => (Scalar.read? word).map fun v => (v, rest)

/-- What `item` reads, with commas between, up to `close`; a comma may stand before it. -/
def sequence? {α : Type} (close : Char) (item : List Char → Option (α × List Char)) :
    Nat → List Char → Option (List α × List Char)
  | 0, _ => none
  | fuel + 1, cs =>
    match skipBlankLines cs with
    | [] => none
    | c :: rest =>
      if c = close then some ([], rest)
      else do
        let (first, cs) ← item (c :: rest)
        match skipBlankLines cs with
        | [] => none
        | d :: cs =>
          if d = close then return ([first], cs)
          else if d = ',' then do
            let (more, cs) ← sequence? close item fuel cs
            return (first :: more, cs)
          else none

/-- A key with its value. `skip` passes over what may stand on either side of the `=`. -/
def assignment? (skip : List Char → List Char) (value : List Char → Option (Value × List Char))
    (cs : List Char) : Option ((List String × String × Value) × List Char) := do
  let (path, key, cs) ← key? cs
  match skip cs with
  | '=' :: cs => do
    let (v, cs) ← value (skip cs)
    return ((path, key, v), cs)
  | _ => none

/-- A value. `depth` is the number of arrays and inline tables that may still be nested. In an inline
table an assignment may run over several lines. -/
def value? : Nat → List Char → Option (Value × List Char)
  | 0, cs =>
    match string? cs with
    | some (text, rest) => some (.string (String.ofList text), rest)
    | none => scalar? cs
  | depth + 1, cs =>
    match cs with
    | '[' :: cs => do
      let (items, cs) ← sequence? ']' (value? depth) cs.length cs
      return (.array items, cs)
    | '{' :: cs => do
      let (assignments, cs) ← sequence? '}' (assignment? skipBlankLines (value? depth)) cs.length cs
      let entries ← inlineTable assignments
      return (.table entries, cs)
    | cs =>
      match string? cs with
      | some (text, rest) => some (.string (String.ofList text), rest)
      | none => scalar? cs

/-- How deep arrays and inline tables may be nested. -/
def maxDepth : Nat := 80

/-! ## Statements -/

/-- A statement, at the start of a line that is not blank. -/
def statement? (cs : List Char) : Option (Statement × List Char) :=
  match cs with
  | '[' :: '[' :: cs => do
    let (path, key, cs) ← key? cs
    match cs with
    | ']' :: ']' :: cs => return (.element path key, cs)
    | _ => none
  | '[' :: cs => do
    let (path, key, cs) ← key? cs
    match cs with
    | ']' :: cs => return (.table path key, cs)
    | _ => none
  | cs => do
    let ((path, key, v), cs) ← assignment? skipSpaces (value? maxDepth) cs
    return (.assign path key v, cs)

/-- The statements of a text, each on lines of its own. -/
def statements? : Nat → List Char → Option (List Statement)
  | 0, _ => none
  | fuel + 1, cs =>
    match skipBlankLines cs with
    | [] => some []
    | cs => do
      let (statement, cs) ← statement? cs
      match skipToLineEnd cs with
      | [] => return [statement]
      | cs => do
        let cs ← lineEnd? cs
        let more ← statements? fuel cs
        return statement :: more

/-- A text without the byte order mark that may start it. -/
def skipByteOrderMark : List Char → List Char
  | '\ufeff' :: cs => cs
  | cs => cs

/-- The table that a document writes. -/
def read? (text : String) : Option (List (String × Value)) := do
  let cs := skipByteOrderMark text.toList
  let statements ← statements? (cs.length + 1) cs
  Statement.build statements

end EntityScript.Toml
