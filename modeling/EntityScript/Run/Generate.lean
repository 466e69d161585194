import EntityScript.Build.Enumeration
import EntityScript.Build.Model
import EntityScript.Render
import EntityScript.Run.Project
/-!
# Generating files

The files of a project. `preview` renders all of them, with the hand-written regions of the files that
they replace; `generate` then writes those that differ from what is there. Nothing is written unless
every file could be rendered.
-/

namespace EntityScript

/-- Why a run failed. -/
inductive RunError
  | registerPivots (model path : String) (cause : BuildError)
  | build (entity path : String) (cause : BuildError)
  | read (path : String) (fault : FileFault)
  | makeDirectory (path : String) (fault : FileFault)
  | write (path : String) (fault : FileFault)
  deriving Repr, DecidableEq

namespace RunError

def message : RunError → String
  | registerPivots model path _ => "failed to register pivots of '" ++ model ++ "' from " ++ path
  | build entity path _ => "failed to generate '" ++ entity ++ "' from " ++ path
  | read path _ => "failed to read '" ++ path ++ "'"
  | makeDirectory path _ => "failed to create directory '" ++ path ++ "'"
  | write path _ => "failed to write '" ++ path ++ "'"

/-- What led to the error. -/
def causeMessage : RunError → String
  | registerPivots _ _ cause | build _ _ cause => cause.message
  | read _ fault | makeDirectory _ fault | write _ fault => fault.message

end RunError

/-- A file that has been rendered. -/
structure OutputFile where
  path : String
  content : String
  deriving Repr, DecidableEq

/-- What a run did with its files. -/
structure RunSummary where
  written : List String := []
  unchanged : List String := []
  deriving Repr, DecidableEq

/-- The content of the file that a rendered one replaces. -/
def OutputFile.readExisting (d : Disk) (path : String) : Except RunError (Option String) :=
  (d.readExisting path).mapError (.read path)

namespace Disk

/-- Writes a text with the directories above it, unless the file has it already; says whether it did.
Directories made before a failure stay. -/
def save (d : Disk) (f : OutputFile) : Disk × Except RunError Bool :=
  match OutputFile.readExisting d f.path with
  | .error e => (d, .error e)
  | .ok existing =>
    if existing = some f.content then (d, .ok false)
    else
      let parent := (Path.parent? f.path).getD ""
      match d.makeDirectory parent with
      | (d, .error fault) => (d, .error (.makeDirectory parent fault))
      | (d, .ok ()) =>
        match d.writeText f.path f.content with
        | .error fault => (d, .error (.write f.path fault))
        | .ok d => (d, .ok true)

/-- Saves files in turn. What was written before a failure stays. -/
def saveAll (d : Disk) : List OutputFile → Disk × Logged RunError RunSummary
  | [] => (d, pure {})
  | f :: fs =>
    match d.save f with
    | (d, .error e) => (d, Logged.ofExcept (.error e))
    | (d, .ok true) =>
      let (d, rest) := saveAll d fs
      (d, do
        Logged.tell .info .files ("wrote " ++ f.path)
        let summary ← rest
        return { summary with written := f.path :: summary.written })
    | (d, .ok false) =>
      let (d, rest) := saveAll d fs
      (d, do
        Logged.tell .debug .files ("unchanged " ++ f.path)
        let summary ← rest
        return { summary with unchanged := f.path :: summary.unchanged })

end Disk

namespace Project

/-- What the generated code is written in. -/
def language : String := "typescript"

/-- What the names of generated files end in. -/
def fileExtension : String := "ts"

/-- The context of `New` files. -/
def newContext (p : Project) : Context :=
  .forNewModels p.config.options (p.models.map (·.name))

/-- Registers the pivots of every model. -/
def registerPivots (r : PivotRegistry) : List SourceFile → Except RunError PivotRegistry
  | [] => .ok r
  | s :: sources =>
    match s.entity with
    | .enumeration _ => registerPivots r sources
    | .model m =>
      match r.registerModel m with
      | (r, .ok ()) => registerPivots r sources
      | (_, .error e) => .error (.registerPivots m.name s.path e)

/-- The pivot interfaces of a project. -/
def pivots (p : Project) : Except RunError PivotRegistry :=
  registerPivots { schema := p.schema } p.sources

/-- The path of a file in an output directory. -/
def outputPath (dir name : String) : String :=
  Path.join dir (name ++ "." ++ fileExtension)

/-- The regions that the file at a path holds. -/
def keptAt (d : Disk) (path : String) : Logged RunError KeptRegions :=
  match OutputFile.readExisting d path with
  | .error e => Logged.ofExcept (.error e)
  | .ok none => pure .empty
  | .ok (some content) => do
    if !(KeptRegions.extract content).isEmpty then
      Logged.tell .debug .files ("preserving hand-written regions of " ++ path)
    return .extract content

/-- The file of an entity, with the regions of the file that it replaces. -/
def renderFile (d : Disk) (e : Entity) (dir : String) (ctx : Context) : Logged RunError OutputFile := do
  let path := outputPath dir (ctx.rename e.name)
  let kept ← keptAt d path
  return { path, content := Entity.render { e with kept } ctx }

/-- The files of a description. -/
def sourceFiles (p : Project) (d : Disk) (pivots : PivotRegistry) (s : SourceFile) :
    Logged RunError (List OutputFile) := do
  let o := p.config.options
  match s.entity with
  | .enumeration source =>
    let e ← (source.build o).mapError (.build source.name s.path)
    let file ← renderFile d e p.enumsDir (.regular o)
    return [file]
  | .model source =>
    let e ← (source.build o p.schema pivots).mapError (.build source.name s.path)
    let file ← renderFile d e p.classesDir (.regular o)
    if o.separateNewModels then
      let newFile ← renderFile d e p.classesDir p.newContext
      return [file, newFile]
    else return [file]

/-- The files of descriptions in turn. -/
def allSourceFiles (p : Project) (d : Disk) (pivots : PivotRegistry) :
    List SourceFile → Logged RunError (List OutputFile)
  | [] => pure []
  | s :: sources => do
    let files ← p.sourceFiles d pivots s
    let more ← allSourceFiles p d pivots sources
    return files ++ more

/-- The file of a pivot interface. -/
def pivotFile (p : Project) (i : PivotInterface) : OutputFile :=
  { path := outputPath p.classesDir i.name, content := i.render p.config.options }

/-- Every file of a project, as it would be written. -/
def preview (p : Project) (d : Disk) : Logged RunError (List OutputFile) := do
  let pivots ← Logged.ofExcept p.pivots
  let files ← p.allSourceFiles d pivots p.sources
  Logged.tellAll (pivots.interfaces.map fun i => ⟨.debug, .files, "rendering pivot interface " ++ i.name⟩)
  return files ++ pivots.interfaces.map p.pivotFile

/-- Writes every file of a project. -/
def generate (p : Project) (d : Disk) : Disk × Logged RunError RunSummary :=
  let rendered := p.preview d
  match rendered.outcome with
  | .error e => (d, ⟨rendered.log, .error e⟩)
  | .ok files =>
    let (d, saved) := d.saveAll files
    (d, ⟨rendered.log ++ saved.log, saved.outcome⟩)

end Project

end EntityScript
