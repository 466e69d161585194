import EntityScript.Text.Char
/-!
# Column types

The TypeScript types of the native types of table columns.
-/

namespace EntityScript.Column

/-- The native types of each TypeScript type, in lower case. -/
def nativeTypes : List (String × List String) :=
  [("string",
    ["binary", "guid", "string", "text", "blob", "varchar", "char", "uuid", "longtext", "mediumtext",
      "enum"]),
    ("any", ["simple_array", "json", "jsonb", "array"]),
    ("number",
      ["bigint", "integer", "int", "smallint", "tinyint", "mediumint", "decimal", "float",
        "smallfloat", "double", "real", "numeric"]),
    ("boolean", ["boolean", "bool"]),
    ("Date",
      ["date", "datetime", "datetimetz", "time", "timestamp", "timestamptz", "dateinterval"])]

/-- The type of a native type in any case, if it has one; each `_immutable` type is a date. -/
def type? (native : String) : Option String :=
  let native := Text.lowerAscii native
  match nativeTypes.find? (·.2.contains native) with
  | some (type, _) => some type
  | none => if "_immutable".toList.isSuffixOf native.toList then some "Date" else none

end EntityScript.Column
