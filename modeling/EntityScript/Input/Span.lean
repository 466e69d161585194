import EntityScript.Text.Cut
/-!
# Spans

The places in an input file that an error points at: the first assignment or header of a key, or the
first quoted occurrence of a value.
-/

namespace EntityScript

/-- A stretch of a text, in bytes. -/
structure Span where
  offset : Nat
  length : Nat
  deriving Repr, DecidableEq

namespace Span

open Text

/-- The bytes before the key of a line that assigns to it. -/
def keyInLine? (key line : List Char) : Option Nat :=
  match after? key (trimStart line) with
  | none => none
  | some rest =>
    if (trimStart rest).head? = some '=' then some (byteLength (line.takeWhile isBlank)) else none

/-- The offset of the first line, after `offset` bytes, that assigns to a key. -/
def keyInLines? (key : List Char) (offset : Nat) : List (List Char) → Option Nat
  | [] => none
  | line :: lines =>
    match keyInLine? key line with
    | some indentation => some (offset + indentation)
    | none => keyInLines? key (offset + byteLength line) lines

/-- The offset of the inside of the first occurrence of a text between two characters. -/
def enclosed? (opening closing : Char) (inside src : List Char) : Option Nat :=
  (cutAt? (opening :: (inside ++ [closing])) src).map fun (before, _) => byteLength before + 1

/-- Where a text first assigns to a key, or else has a header of that name. -/
def ofKey? (src key : String) : Option Span :=
  let found :=
    match keyInLines? key.toList 0 (rawLines src.toList) with
    | some offset => some offset
    | none => enclosed? '[' ']' key.toList src.toList
  found.map fun offset => ⟨offset, key.utf8ByteSize⟩

/-- Where a text first has a value in double quotes, or else in single quotes. -/
def ofValue? (src value : String) : Option Span :=
  let found :=
    match enclosed? '"' '"' value.toList src.toList with
    | some offset => some offset
    | none => enclosed? '\'' '\'' value.toList src.toList
  found.map fun offset => ⟨offset, value.utf8ByteSize⟩

end Span

end EntityScript
