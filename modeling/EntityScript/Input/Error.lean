import EntityScript.Input.Identifier
import EntityScript.Input.Span
/-!
# Input errors

Why the inputs of a run cannot be used: files that cannot be read, texts that are no TOML of the
expected form, and descriptions that contradict themselves.
-/

namespace EntityScript

/-- Why an operation on a file failed. -/
inductive FileFault
  | notFound
  | isDirectory
  | notDirectory
  | alreadyExists
  /-- The content is no UTF-8. -/
  | invalidData
  /-- The path has a null character. -/
  | unusablePath
  | nameTooLong
  deriving Repr, DecidableEq

def FileFault.message : FileFault → String
  | notFound => "no such file or directory"
  | isDirectory => "is a directory"
  | notDirectory => "not a directory"
  | alreadyExists => "file exists"
  | invalidData => "content is not valid UTF-8"
  | unusablePath => "path contains a null character"
  | nameTooLong => "file name too long"

/-- What a description may not be. -/
inductive InvalidInput
  | noEntities
  | indentWidth (width : Nat)
  | emptySubsetModule
  | repeatedColumn (column table : String)
  | repeatedRelation (relation : String)
  | emptyTarget (relation : String)
  | emptyPivotTable (relation : String)
  | emptyMember
  | repeatedCase (case : String)
  | repeatedExport (name : String)
  deriving Repr, DecidableEq

def InvalidInput.message : InvalidInput → String
  | noEntities => "at least one entity source path is required"
  | indentWidth width => "indent must be between 1 and 16 spaces, got " ++ toString width
  | emptySubsetModule => "required_subset_module cannot be empty"
  | repeatedColumn column table =>
    "column '" ++ column ++ "' appears more than once in table '" ++ table ++ "'"
  | repeatedRelation relation => "relation '" ++ relation ++ "' is declared more than once"
  | emptyTarget relation => "relation '" ++ relation ++ "' has an empty target"
  | emptyPivotTable relation => "relation '" ++ relation ++ "' has an empty pivot table"
  | emptyMember => "member name cannot be empty"
  | repeatedCase case => "enum case '" ++ case ++ "' is declared more than once"
  | repeatedExport name => "export name '" ++ name ++ "' is used by more than one method"

inductive InputError
  | file (path : String) (fault : FileFault)
  | parse (file : String)
  | invalid (cause : InvalidInput) (span : Option Span)
  | identifier (role name : String) (fault : Identifier.Fault) (span : Option Span)
  | missingSource (path : String)
  | repeatedEntity (name first second : String)
  deriving Repr, DecidableEq

namespace InputError

def message : InputError → String
  | file path _ => "failed to read '" ++ path ++ "'"
  | parse name => "failed to parse " ++ name
  | invalid cause _ => cause.message
  | identifier role name _ _ => "invalid " ++ role ++ " name '" ++ name ++ "'"
  | missingSource path => "source path '" ++ path ++ "' does not exist"
  | repeatedEntity name first second =>
    "entity '" ++ name ++ "' is defined in both '" ++ first ++ "' and '" ++ second ++ "'"

/-- The stable name of the kind of error. -/
def code : InputError → String
  | file .. => "tswink::io_error"
  | parse _ => "tswink::parse_error"
  | invalid .. => "tswink::validation_error"
  | identifier .. => "tswink::invalid_identifier"
  | missingSource _ => "tswink::missing_source"
  | repeatedEntity .. => "tswink::duplicate_entity"

/-- What may help against the error. -/
def help? : InputError → Option String
  | file .. => some "check that the path exists and is readable"
  | identifier _ _ fault _ =>
    some (fault.message ++
      ". Use only letters, numbers, and underscores, starting with a letter or underscore.")
  | missingSource _ => some "check the [sources] section of tswink.toml"
  | repeatedEntity .. => some "every entity name must be unique within a project"
  | _ => none

/-- A fault of a file as a whole. -/
def ofWhole (cause : InvalidInput) : InputError :=
  invalid cause none

/-- A fault at the first assignment of a key. -/
def atKey (src : String) (cause : InvalidInput) (key : String) : InputError :=
  invalid cause (Span.ofKey? src key)

end InputError

/-- Succeeds if a name is an identifier; `role` says what it names. -/
def Identifier.check (src role name : String) : Except InputError Unit :=
  match fault? name with
  | some fault => .error (.identifier role name fault (Span.ofValue? src name))
  | none => .ok ()

end EntityScript
