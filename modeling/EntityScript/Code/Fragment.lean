import EntityScript.Text.Cut
/-!
# Code fragments

Pieces of generated code, placed relative to the indentation they are written at. `Writer` writes
them one by one at its level; `Fragment.text` says what a fragment is as a text.
-/

namespace EntityScript

inductive Fragment
  | line (text : String)
  | blank
  /-- Neither indented nor ended. -/
  | raw (text : String)
  /-- Indented but not ended. -/
  | indentedRaw (text : String)
  /-- A header, a body one level deeper and perhaps a closing line. -/
  | block (header : String) (body : List Fragment) (close : Option String)
  deriving Repr, Inhabited

namespace Fragment

/-- A line at a level. -/
def lineText (unit : String) (level : Nat) (text : String) : String :=
  Text.copies unit level ++ text ++ "\n"

mutual

/-- The text of a fragment at a level. -/
def text (unit : String) (level : Nat) : Fragment → String
  | line s => lineText unit level s
  | blank => "\n"
  | raw s => s
  | indentedRaw s => Text.copies unit level ++ s
  | block header body close =>
    lineText unit level header ++ texts unit (level + 1) body ++
      (match close with
        | some s => lineText unit level s
        | none => "")

/-- The text of fragments in a row. -/
def texts (unit : String) (level : Nat) : List Fragment → String
  | [] => ""
  | fragment :: fragments => text unit level fragment ++ texts unit level fragments

end

end Fragment

/-- A text that grows at a level of indentation. -/
structure Writer where
  unit : String
  level : Nat := 0
  text : String := ""
  deriving Repr

namespace Writer

def raw (w : Writer) (s : String) : Writer :=
  { w with text := w.text ++ s }

/-- Blank lines carry no indentation. -/
def blank (w : Writer) : Writer :=
  w.raw "\n"

def indentedRaw (w : Writer) (s : String) : Writer :=
  w.raw (Text.copies w.unit w.level ++ s)

def line (w : Writer) (s : String) : Writer :=
  w.indentedRaw (s ++ "\n")

def indent (w : Writer) : Writer :=
  { w with level := w.level + 1 }

/-- One level back; there is none before the first. -/
def dedent (w : Writer) : Writer :=
  { w with level := w.level - 1 }

mutual

/-- Writes a fragment. -/
def emit (w : Writer) : Fragment → Writer
  | .line s => w.line s
  | .blank => w.blank
  | .raw s => w.raw s
  | .indentedRaw s => w.indentedRaw s
  | .block header body close =>
    let w := (emitAll (w.line header).indent body).dedent
    match close with
    | some s => w.line s
    | none => w

/-- Writes fragments in a row. -/
def emitAll (w : Writer) : List Fragment → Writer
  | [] => w
  | fragment :: fragments => emitAll (emit w fragment) fragments

end

end Writer

end EntityScript
