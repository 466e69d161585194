import EntityScript.Text.Cut
/-!
# Paths

Paths as they are written, with slashes between their pieces. Two paths are the same if they have the
same components: empty pieces and dots between slashes do not count.
-/

namespace EntityScript.Path

/-- A step from a directory. -/
inductive Step
  | root
  /-- The directory itself. -/
  | here
  /-- The directory above. -/
  | up
  | child (name : String)
  deriving Repr, DecidableEq

/-- The pieces between slashes. -/
def pieces (path : String) : List (List Char) :=
  Text.splitWhere (· == '/') path.toList

/-- The path of pieces. -/
def ofPieces (ps : List (List Char)) : String :=
  Text.join "/" (ps.map String.ofList)

def isAbsolute (path : String) : Bool :=
  path.toList.head? == some '/'

/-- The step that a piece stands for. -/
def pieceStep (piece : List Char) : Step :=
  if piece = [] ∨ piece = ['.'] then .here
  else if piece = ['.', '.'] then .up
  else .child (String.ofList piece)

/-- The steps to the file of a path. -/
def steps (path : String) : List Step :=
  (if isAbsolute path then [.root] else []) ++ (pieces path).map pieceStep

/-- What two spellings of a path have in common. -/
def components (path : String) : List Step :=
  let start :=
    if isAbsolute path then [Step.root]
    else if (pieces path).head? = some ['.'] then [.here]
    else []
  start ++ ((pieces path).map pieceStep).filter (· != .here)

/-- Whether two spellings mean the same path. -/
def same (a b : String) : Bool :=
  components a == components b

/-- A path below another; an absolute path stays as it is. -/
def join (base path : String) : String :=
  if isAbsolute path || base == "" || base.toList.getLast? == some '/' then
    (if isAbsolute path then "" else base) ++ path
  else base ++ "/" ++ path

/-- Whether a piece is empty or a dot. -/
def isIdle (piece : List Char) : Bool :=
  pieceStep piece == .here

/-- Whether a slash follows the last name of a path, so that only a directory can be there. -/
def namesDirectory (path : String) : Bool :=
  let named := Text.dropEndWhile List.isEmpty (pieces path)
  named.length < (pieces path).length && named.getLast?.any (!isIdle ·)

/-- The path of the directory that holds a path. -/
def parent? (path : String) : Option String :=
  match pieces path with
  | [] => none
  | first :: rest =>
    match Text.dropEndWhile isIdle rest with
    | [] => if first.isEmpty then none else some ""
    | rest =>
      let above := Text.dropEndWhile isIdle rest.dropLast
      if first.isEmpty && above.isEmpty then some "/" else some (ofPieces (first :: above))

/-- The characters after the last dot of a file name, if there is another one before that dot. -/
def extension? (name : String) : Option String :=
  let reversed := name.toList.reverse
  match reversed.dropWhile (· != '.') with
  | '.' :: _ :: _ => some (String.ofList (reversed.takeWhile (· != '.')).reverse)
  | _ => none

/-- The pieces after a number of components. -/
def dropComponents : Nat → List (List Char) → List (List Char)
  | 0, ps => ps.dropWhile isIdle
  | n + 1, ps => dropComponents n ((ps.dropWhile isIdle).drop 1)

/-- A path seen from a directory above it; any other path stays as it is. -/
def relativeTo (root path : String) : String :=
  match (components root).length with
  | 0 => path
  | n + 1 =>
    if (components root).isPrefixOf (components path) then
      ofPieces (dropComponents n ((pieces path).drop 1))
    else path

end EntityScript.Path
