/-!
# Dictionaries

Entries in increasing order of their keys, one for each key.
-/

namespace EntityScript.Dictionary

variable {α : Type}

/-- Sets the value of a key in sorted entries. -/
def put (key : String) (value : α) : List (String × α) → List (String × α)
  | [] => [(key, value)]
  | (k, v) :: entries =>
    if key < k then (key, value) :: (k, v) :: entries
    else if key = k then (key, value) :: entries
    else (k, v) :: put key value entries

/-- The value of a key. -/
def get? (key : String) (entries : List (String × α)) : Option α :=
  entries.lookup key

end EntityScript.Dictionary
