import EntityScript.Run.CommandLine
/-!
# The program

Reads the files that a command may need into a disk, runs the command on it and writes what changed.
-/

namespace EntityScript.Terminal

/-- The entry of a file. -/
def entryOf (bytes : ByteArray) : DiskEntry :=
  match String.fromUTF8? bytes with
  | some content => .text content
  | none => .binary bytes.toList

/-- Copies a file or a directory, down to a depth, to the same path of a disk. -/
def capture : Nat → Disk → String → IO Disk
  | 0, d, _ => return d
  | depth + 1, d, path => do
    let file := (← IO.currentDir) / path
    if ← file.isDir then
      let mut d := d.install path .directory
      for child in ← file.readDir do
        d ← capture depth d (Path.join path child.fileName)
      return d
    else if ← file.pathExists then
      return d.install path (entryOf (← IO.FS.readBinFile file))
    else return d

/-- How deep directories are searched. -/
def maxDepth : Nat := 64

/-- The configuration file of an invocation. -/
def configPath? : Option CommandLine.Invocation → Option String
  | some (.command _ (.generate config _)) => some config
  | some (.command _ (.check config)) => some config
  | _ => none

/-- The paths that a configuration file names. -/
def namedPaths (d : Disk) (config : String) : List String :=
  match Project.load Config.parse d config with
  | .error _ => []
  | .ok c =>
    let root := (Path.parent? config).getD ""
    ([c.classes, c.enums] ++ c.entities ++ c.schema.toList).map (Path.join root)

/-- The part of the file system that an invocation may need. -/
def survey (config : String) : IO Disk := do
  let d ← capture maxDepth {} config
  (namedPaths d config).foldlM (capture maxDepth) d

/-- Makes the directories and writes the texts that a run has changed. -/
def writeBack (before after : Disk) : IO Unit := do
  for path in after.directories do
    if !before.isDirectory path then IO.FS.createDirAll ((← IO.currentDir) / path)
  for (path, content) in after.texts do
    if (before.readText path).toOption != some content then
      let file := (← IO.currentDir) / path
      if let some directory := file.parent then IO.FS.createDirAll directory
      IO.FS.writeFile file content

end EntityScript.Terminal

open EntityScript in
def main (words : List String) : IO UInt32 := do
  let before ←
    match Terminal.configPath? (CommandLine.read 0 words) with
    | some config => Terminal.survey config
    | none => pure {}
  let (after, outcome) := CommandLine.run before words
  Terminal.writeBack before after
  (← IO.getStderr).putStr outcome.errors
  IO.print outcome.output
  return outcome.exitCode.toUInt32
