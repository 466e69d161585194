import EntityScript.Code.Fragment
/-!
# Hand-written regions

The regions of a generated file that are kept when the file is generated again. Each stands between
a pair of comment lines, and what stands between them is carried over character by character.
-/

namespace EntityScript

inductive Region
  /-- After the generated imports. -/
  | imports
  /-- In the body of the class or interface. -/
  | members
  /-- At the end of the file. -/
  | code
  deriving Repr, DecidableEq

namespace Region

def all : List Region :=
  [imports, members, code]

def tag : Region → String
  | imports => "non-auto-generated-import-declarations"
  | members => "non-auto-generated-class-declarations"
  | code => "non-auto-generated-code"

/-- The comment that opens the region. -/
def opening (r : Region) : String :=
  "// <" ++ r.tag ++ ">"

/-- The comment that closes the region. -/
def closing (r : Region) : String :=
  "// </" ++ r.tag ++ ">"

/-- What stands between the first opening and the first closing after it. -/
def extract? (r : Region) (text : String) : Option String :=
  match Text.cutAt? r.opening.toList text.toList with
  | none => none
  | some (_, rest) => (Text.cutAt? r.closing.toList rest).map fun (content, _) => String.ofList content

/-- A region at the level of its writer. An empty one is a blank line, and its closing comment
stands behind `closeIndent`. -/
def fragments (r : Region) (content : Option String) (closeIndent : String) : List Fragment :=
  [.indentedRaw r.opening, .raw (content.getD ("\n\n" ++ closeIndent)), .raw (r.closing ++ "\n")]

end Region

/-- What the regions of a file hold. -/
structure KeptRegions where
  imports : Option String := none
  members : Option String := none
  code : Option String := none
  deriving Repr, DecidableEq

namespace KeptRegions

def empty : KeptRegions := {}

def get? (k : KeptRegions) : Region → Option String
  | .imports => k.imports
  | .members => k.members
  | .code => k.code

def set (k : KeptRegions) (r : Region) (content : String) : KeptRegions :=
  match r with
  | .imports => { k with imports := some content }
  | .members => { k with members := some content }
  | .code => { k with code := some content }

/-- The regions of a text. -/
def extract (text : String) : KeptRegions :=
  Region.all.foldl (fun k r => ((r.extract? text).map (k.set r)).getD k) empty

/-- Whether no region was found. -/
def isEmpty (k : KeptRegions) : Bool :=
  Region.all.all fun r => (k.get? r).isNone

end KeptRegions

end EntityScript
