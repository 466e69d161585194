import EntityScript.Disk.Basic
import EntityScript.Input.Config
import EntityScript.Input.Schema
import EntityScript.Input.Source
/-!
# Projects

A configuration with the schema and the entity descriptions that it names.
-/

namespace EntityScript

/-- A description with the path of its file. -/
structure SourceFile where
  path : String
  entity : EntitySource
  deriving Repr

structure Project where
  /-- The directory that the paths of the configuration start from. -/
  root : String
  config : Config
  sources : List SourceFile
  schema : Option Schema
  deriving Repr

namespace Project

/-- What a text reader makes of a file. -/
def load {α : Type} (parse : String → String → Except InputError α) (d : Disk) (path : String) :
    Except InputError α :=
  match d.readText path with
  | .ok content => parse path content
  | .error fault => .error (.file path fault)

/-- Whether a file is found in a directory: one whose name ends in `.toml`. -/
def isDescription (path : String) : Bool :=
  match (Path.components path).getLast? with
  | some (.child name) => Path.extension? name == some "toml"
  | _ => false

/-- The files that an entry of the configuration means. -/
def entryFiles (d : Disk) (root entry : String) : Except InputError (List String) :=
  let path := Path.join root entry
  if d.isFile path then .ok [path]
  else if d.isDirectory path then .ok ((d.files path).filter isDescription)
  else .error (.missingSource path)

/-- The first of the spellings of each path. -/
def distinctPaths : List String → List String
  | [] => []
  | p :: ps => p :: (distinctPaths ps).filter (fun q => !Path.same q p)

/-- The files of entity descriptions, each once. -/
def discover (d : Disk) (root : String) (entries : List String) : Except InputError (List String) :=
  (entries.mapM (entryFiles d root)).map fun files => distinctPaths files.flatten

/-- The descriptions in files; no two have one name. `seen` are the descriptions before. -/
def loadSources (d : Disk) (seen : List SourceFile) : List String → Except InputError (List SourceFile)
  | [] => .ok []
  | path :: paths => do
    let entity ← load EntitySource.parse d path
    match seen.find? (·.entity.name == entity.name) with
    | some first => throw (.repeatedEntity entity.name first.path path)
    | none =>
      let file : SourceFile := { path, entity }
      let files ← loadSources d (file :: seen) paths
      return file :: files

/-- The project of a configuration. -/
def ofConfig (d : Disk) (root : String) (config : Config) : Except InputError Project := do
  let schema ← config.schema.mapM fun path => load Schema.parse d (Path.join root path)
  let paths ← discover d root config.entities
  let sources ← loadSources d [] paths
  return { root, config, sources, schema }

/-- The project of a configuration file. -/
def openAt (d : Disk) (configPath : String) : Except InputError Project := do
  let config ← load Config.parse d configPath
  ofConfig d ((Path.parent? configPath).getD "") config

/-- Where models and pivot interfaces go. -/
def classesDir (p : Project) : String :=
  Path.join p.root p.config.classes

/-- Where enums go. -/
def enumsDir (p : Project) : String :=
  Path.join p.root p.config.enums

def models (p : Project) : List ModelSource :=
  p.sources.filterMap (·.entity.model?)

end Project

end EntityScript
