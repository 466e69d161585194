import EntityScript.Disk.Path
import EntityScript.Input.Error
/-!
# Disk

The files that a run sees and leaves behind, as a value. A place on the disk is the list of names from
the working directory down; `..` leads above it and `/` starts an absolute place.
-/

namespace EntityScript

inductive DiskEntry
  | directory
  | text (content : String)
  /-- Content that is no UTF-8. -/
  | binary (bytes : List UInt8)
  deriving Repr, DecidableEq

/-- A place on the disk. -/
abbrev Place := List String

structure Disk where
  entries : List (Place × DiskEntry) := []
  deriving Repr, DecidableEq

namespace Disk

/-- Directories that exist without an entry: the working directory and those above it. -/
def isAnchor (place : Place) : Bool :=
  place == ["/"] || place.all (· == "..")

def get? (d : Disk) (place : Place) : Option DiskEntry :=
  if isAnchor place then some .directory else d.entries.lookup place

/-- Puts an entry in a place, whatever was there. -/
def put (d : Disk) (place : Place) (e : DiskEntry) : Disk :=
  { d with entries := (place, e) :: d.entries.filter (·.1 != place) }

/-- The place that a step leads to. -/
def stepFrom (place : Place) : Path.Step → Place
  | .root => ["/"]
  | .here => place
  | .up => if place = ["/"] then place else if isAnchor place then place ++ [".."] else place.dropLast
  | .child name => place ++ [name]

/-- The length in bytes that a name may have. -/
def maxNameLength : Nat := 255

/-- The length in bytes that a path may have. -/
def maxPathLength : Nat := 4095

/-- Whether a step has a name that is too long. -/
def isTooLong : Path.Step → Bool
  | .child name => maxNameLength < name.utf8ByteSize
  | _ => false

/-- Where steps lead; each starts from a directory. -/
def walk (d : Disk) (place : Place) : List Path.Step → Except FileFault Place
  | [] => .ok place
  | s :: steps =>
    match d.get? place with
    | some .directory => if isTooLong s then .error .nameTooLong else walk d (stepFrom place s) steps
    | some _ => .error .notDirectory
    | none => .error .notFound

/-- The place of a path. -/
def locate (d : Disk) (path : String) : Except FileFault Place :=
  if path = "" then .error .notFound
  else if path.toList.contains '\x00' then .error .unusablePath
  else if maxPathLength < path.utf8ByteSize then .error .nameTooLong
  else d.walk [] (Path.steps path)

/-- The content of a file. -/
def readText (d : Disk) (path : String) : Except FileFault String :=
  match d.locate path with
  | .error fault => .error fault
  | .ok place =>
    match d.get? place with
    | some (.text content) => .ok content
    | some .directory => .error .isDirectory
    | some (.binary _) => .error .invalidData
    | none => .error .notFound

/-- The content of a file that need not exist. -/
def readExisting (d : Disk) (path : String) : Except FileFault (Option String) :=
  match d.readText path with
  | .ok content => .ok (some content)
  | .error .notFound => .ok none
  | .error fault => .error fault

/-- What is at a path. -/
def at? (d : Disk) (path : String) : Option DiskEntry :=
  match d.locate path with
  | .ok place => d.get? place
  | .error _ => none

def isFile (d : Disk) (path : String) : Bool :=
  match d.at? path with
  | some (.text _) | some (.binary _) => true
  | _ => false

def isDirectory (d : Disk) (path : String) : Bool :=
  d.at? path == some .directory

/-- The disk with a directory in a place that is free or has one. -/
def addDirectory (d : Disk) (place : Place) : Except FileFault Disk :=
  match d.get? place with
  | some .directory => .ok d
  | some _ => .error .alreadyExists
  | none => .ok (d.put place .directory)

/-- Makes every directory on the way from a place. Those made before a failure stay. -/
def makeDirectories (d : Disk) (place : Place) : List Path.Step → Disk × Except FileFault Unit
  | [] => (d, .ok ())
  | s :: steps =>
    if isTooLong s then (d, .error .nameTooLong)
    else
      match d.addDirectory (stepFrom place s) with
      | .ok d => makeDirectories d (stepFrom place s) steps
      | .error fault => (d, .error fault)

/-- Makes a directory and all those above it. -/
def makeDirectory (d : Disk) (path : String) : Disk × Except FileFault Unit :=
  d.makeDirectories [] (Path.steps path)

/-- The disk with a text at a path whose directory exists. -/
def writeText (d : Disk) (path content : String) : Except FileFault Disk :=
  if Path.namesDirectory path then .error .isDirectory
  else
    match d.locate path with
    | .error fault => .error fault
    | .ok place =>
      match d.get? place with
      | some .directory => .error .isDirectory
      | _ => .ok (d.put place (.text content))

/-- The disk with an entry at a path, whatever was there, below directories. -/
def install (d : Disk) (path : String) (e : DiskEntry) : Disk :=
  let place := (Path.steps path).foldl stepFrom []
  let above := (List.range place.length).map place.take
  (above.foldl (fun d p => if (d.get? p).isSome then d else d.put p .directory) d).put place e

/-- The path of a place. -/
def pathOf : Place → String
  | "/" :: names => "/" ++ Text.join "/" names
  | names => Text.join "/" names

/-- The texts of a disk, each with its path. -/
def texts (d : Disk) : List (String × String) :=
  d.entries.filterMap fun (place, e) =>
    match e with
    | .text content => some (pathOf place, content)
    | _ => none

/-- The paths of the directories of a disk. -/
def directories (d : Disk) : List String :=
  d.entries.filterMap fun (place, e) => if e = .directory then some (pathOf place) else none

/-- The names in a directory, in order. -/
def names (d : Disk) (place : Place) : List String :=
  let children := d.entries.filterMap fun (p, _) =>
    if p.dropLast = place ∧ p ≠ [] then p.getLast? else none
  children.mergeSort (· ≤ ·)

/-- The paths of the files below a place, each directory in order of its names. `path` spells the
place; `depth` bounds how far down it goes. -/
def filesBelow (d : Disk) : Nat → Place → String → List String
  | 0, _, _ => []
  | depth + 1, place, path =>
    (d.names place).flatMap fun name =>
      match d.get? (place ++ [name]) with
      | some .directory => filesBelow d depth (place ++ [name]) (Path.join path name)
      | some _ => [Path.join path name]
      | none => []

/-- The length of the longest place. -/
def depth (d : Disk) : Nat :=
  d.entries.foldl (fun n (place, _) => max n place.length) 0

/-- The paths of the files in a directory and below. -/
def files (d : Disk) (path : String) : List String :=
  match d.locate path with
  | .ok place => filesBelow d (d.depth + 1) place path
  | .error _ => []

theorem get?_put_self (d : Disk) {place : Place} (e : DiskEntry) (h : isAnchor place = false) :
    (d.put place e).get? place = some e := by
  simp [get?, put, h]

end Disk

end EntityScript
