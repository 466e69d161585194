import EntityScript.Input.Error
import EntityScript.Options
import EntityScript.Toml.Decode
import EntityScript.Toml.Reader
/-!
# Configuration

The project file: where entity descriptions, the schema and the outputs are, and the options.
-/

namespace EntityScript

/-- The configuration of a project; its paths are as they are written. -/
structure Config where
  /-- Where models and pivot interfaces go. -/
  classes : String
  /-- Where enums go. -/
  enums : String
  /-- Files and directories of entity descriptions. -/
  entities : List String
  schema : Option String
  options : Options
  deriving Repr, DecidableEq

namespace Config

open Toml.Decode

def quoteStyle? : Toml.Value → Option QuoteStyle :=
  constant? [("single", .single), ("double", .double)]

/-- A number of spaces of one byte, or `"tab"`. -/
def indent? : Toml.Value → Option Indent
  | .integer width => if 0 ≤ width ∧ width < 256 then some (.spaces width.toNat) else none
  | .string "tab" => some .tab
  | _ => none

def options? (v : Toml.Value) : Option Options := do
  let record ← record? ["indent", "import_quotes", "string_quotes", "interface", "semicolons",
    "force_optional", "separate_new_models", "base_class", "required_subset_module"] true v
  let standard : Options := {}
  let indent ← optional? record "indent" standard.indent indent?
  let importQuotes ← optional? record "import_quotes" standard.importQuotes quoteStyle?
  let stringQuotes ← optional? record "string_quotes" standard.stringQuotes quoteStyle?
  let interface ← optional? record "interface" standard.interface boolean?
  let semicolons ← optional? record "semicolons" standard.semicolons boolean?
  let forceOptional ← optional? record "force_optional" standard.forceOptional boolean?
  let separateNewModels ← optional? record "separate_new_models" standard.separateNewModels boolean?
  let baseClass ← optional? record "base_class" none fun v => (string? v).map some
  let requiredSubsetModule ←
    optional? record "required_subset_module" standard.requiredSubsetModule string?
  return { indent, importQuotes, stringQuotes, interface, semicolons, forceOptional,
           separateNewModels, baseClass, requiredSubsetModule }

def output? (v : Toml.Value) : Option (String × String) := do
  let record ← record? ["classes", "enums"] true v
  let classes ← required? record "classes" string?
  let enums ← required? record "enums" string?
  return (classes, enums)

def sources? (v : Toml.Value) : Option (List String × Option String) := do
  let record ← record? ["entities", "schema"] true v
  let entities ← required? record "entities" (list? string?)
  let schema ← optional? record "schema" none fun v => (string? v).map some
  return (entities, schema)

/-- The configuration that a table describes. -/
def decode? (v : Toml.Value) : Option Config := do
  let record ← record? ["output", "sources", "options"] true v
  let (classes, enums) ← required? record "output" output?
  let (entities, schema) ← required? record "sources" sources?
  let options ← optional? record "options" {} options?
  return { classes, enums, entities, schema, options }

/-- The first fault of a configuration. -/
def check (src : String) (c : Config) : Except InputError Unit := do
  if c.entities.isEmpty then throw (.atKey src .noEntities "entities")
  match c.options.indent with
  | .spaces width => if width = 0 ∨ 16 < width then throw (.atKey src (.indentWidth width) "indent")
  | .tab => pure ()
  match c.options.baseClass with
  | some base => Identifier.check src "base class" base
  | none => pure ()
  if Text.isBlankText c.options.requiredSubsetModule then
    throw (.atKey src .emptySubsetModule "required_subset_module")

/-- The configuration that a text writes. -/
def parse (file src : String) : Except InputError Config :=
  match (Toml.read? src).bind fun entries => decode? (.table entries) with
  | none => .error (.parse file)
  | some c =>
    match check src c with
    | .ok () => .ok c
    | .error e => .error e

end Config

end EntityScript
