/-!
# Build errors

Why entities cannot be built from their descriptions.
-/

namespace EntityScript

inductive BuildError
  | tableNotFound (entity table : String)
  | pivotTableNotFound (relation table : String)
  | pivotNotRegistered (relation table : String)
  | pivotColumnNotFound (relation table column : String)
  | unknownColumnType (table column type : String)
  /-- A method that is exported fails. -/
  | serviceFailed (method message : String)
  | serviceNotArray (method got : String)
  | serviceNotCase (method found : String) (index : Nat) (expected : String)
  | serviceWrongEnum (method found : String) (index : Nat) (expected : String)
  | serviceUnknownCase (method case : String) (index : Nat)
  deriving Repr, DecidableEq

namespace BuildError

def message : BuildError → String
  | tableNotFound entity table =>
    "table '" ++ table ++ "' of model '" ++ entity ++ "' is not in the schema"
  | pivotTableNotFound relation table =>
    "pivot table '" ++ table ++ "' of relation '" ++ relation ++ "' is not in the schema"
  | pivotNotRegistered relation table =>
    "pivot table '" ++ table ++ "' of relation '" ++ relation ++
      "' was referenced before it was registered"
  | pivotColumnNotFound relation table column =>
    "relation '" ++ relation ++ "' exposes pivot column '" ++ column ++ "', which table '" ++ table ++
      "' does not have"
  | unknownColumnType table column type =>
    "column '" ++ column ++ "' of table '" ++ table ++ "' has unsupported type '" ++ type ++ "'"
  | serviceFailed method message =>
    "Failed to execute method " ++ method ++ "() for export: " ++ message
  | serviceNotArray method got => "Method " ++ method ++ "() must return an array, got " ++ got
  | serviceNotCase method found index expected =>
    "Method " ++ method ++ "() must return an array of enum cases only. Found " ++ found ++
      " at index " ++ toString index ++ ". Expected cases of " ++ expected ++ "."
  | serviceWrongEnum method found index expected =>
    "Method " ++ method ++ "() returned enum case from wrong enum class. Found " ++ found ++
      " at index " ++ toString index ++ ", expected cases from " ++ expected ++ "."
  | serviceUnknownCase method case index =>
    "Method " ++ method ++ "() returned unknown case '" ++ case ++ "' at index " ++ toString index

/-- The stable name of the kind of error. -/
def code : BuildError → String
  | tableNotFound .. => "tswink::table_not_found"
  | pivotTableNotFound .. => "tswink::pivot_table_not_found"
  | pivotNotRegistered .. => "tswink::pivot_not_registered"
  | pivotColumnNotFound .. => "tswink::pivot_column_not_found"
  | unknownColumnType .. => "tswink::unknown_column_type"
  | serviceFailed .. => "tswink::service_execution"
  | serviceNotArray .. => "tswink::service_not_array"
  | serviceNotCase .. => "tswink::service_non_case"
  | serviceWrongEnum .. => "tswink::service_wrong_enum"
  | serviceUnknownCase .. => "tswink::service_unknown_case"

/-- What may help against the error. -/
def help? : BuildError → Option String
  | tableNotFound .. =>
    some "declare the table in the schema file configured under [sources].schema"
  | _ => none

end BuildError

end EntityScript
