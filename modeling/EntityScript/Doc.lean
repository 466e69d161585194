import EntityScript.Text.Cut
/-!
# Documented properties

The `@property` tags of a documentation block, one a line, with or without comment decoration.
-/

namespace EntityScript.Doc

open Text

/-- The tags that document a property. -/
inductive Tag
  | readWrite
  | read
  | write
  /-- Wins over the other tags of the same name. -/
  | override
  deriving Repr, DecidableEq

/-- The word that a tag is written as. -/
def Tag.word : Tag → String
  | readWrite => "@property"
  | read => "@property-read"
  | write => "@property-write"
  | override => "@tswink-property"

/-- The tag that a word writes. -/
def Tag.ofWord? (word : List Char) : Option Tag :=
  [Tag.readWrite, .read, .write, .override].find? (·.word.toList == word)

/-- A tag with the type, name and description of a property. -/
structure Property where
  tag : Tag
  type : String
  name : String
  description : Option String
  deriving Repr, DecidableEq

/-- The text after every leading comment opening. -/
def dropOpenings : List Char → List Char
  | '/' :: '*' :: '*' :: cs => dropOpenings cs
  | cs => cs

/-- A reversed text without the comment closings it starts with. -/
def dropReversedClosings : List Char → List Char
  | '/' :: '*' :: cs => dropReversedClosings cs
  | cs => cs

/-- A line without its comment decoration. -/
def undecorate (line : List Char) : List Char :=
  trim ((dropReversedClosings (dropOpenings (trim line)).reverse).reverse.dropWhile (· == '*'))

/-- The text before and after the first `$` that follows a blank. -/
def cutAtName? : List Char → Option (List Char × List Char)
  | [] => none
  | [_] => none
  | c :: '$' :: cs =>
    if isBlank c then some ([c], cs) else (cutAtName? ('$' :: cs)).map fun (b, r) => (c :: b, r)
  | c :: d :: cs => (cutAtName? (d :: cs)).map fun (b, r) => (c :: b, r)

/-- A text, unless it is empty. -/
def nonempty? (cs : List Char) : Option String :=
  if cs.isEmpty then none else some (String.ofList cs)

/-- The property that the words after a tag describe. -/
def property? (tag : Tag) (rest : List Char) : Option Property := do
  let (type, after) ← cutAtName? (trimStart rest)
  let type ← nonempty? (trim type)
  let name ← nonempty? (after.takeWhile isWordChar)
  return { tag, type, name, description := nonempty? (trim (after.dropWhile isWordChar)) }

/-- The property that a line documents. -/
def lineProperty? (line : List Char) : Option Property :=
  let text := undecorate line
  match text.dropWhile (!isBlank ·) with
  | [] => none
  | _ :: rest => (Tag.ofWord? (text.takeWhile (!isBlank ·))).bind (property? · rest)

/-- Every documented property of a block, in order. -/
def properties (doc : String) : List Property :=
  (rawLines doc.toList).filterMap lineProperty?

end EntityScript.Doc
