import EntityScript.Log
import EntityScript.Text.Plain
/-!
# Log lines

How log entries are written on standard error. An entry starts with its head, the level and the
source in brackets, and the lines of its message after the first are indented, so that only a head is
found at the start of a line. As each entry is shown by itself, a control sequence that it leaves open
hides its line end but nothing of the next entry.
-/

namespace EntityScript

/-- The name of a level in a head. -/
def LogLevel.label : LogLevel → String
  | warn => "WARN"
  | info => "INFO"
  | debug => "DEBUG"

/-- The name of a source in a head. -/
def LogSource.path : LogSource → String
  | command => "tswink::commands::generate"
  | building => "tswink_codegen_typescript::builder"
  | types => "tswink_codegen_typescript::types::resolve"
  | files => "tswink_codegen_typescript::generator"

namespace LogEntry

/-- The width of a level in a head. -/
def labelWidth : Nat := 5

def head (e : LogEntry) : List Char :=
  let label := e.level.label.toList
  '[' :: label ++ List.replicate (labelWidth - label.length) ' ' ++ ' ' :: e.source.path.toList ++ [']', ' ']

/-- A text with its lines after the first indented. -/
def indented (cs : List Char) : List Char :=
  cs.flatMap fun c => if c = '\n' then '\n' :: List.replicate 4 ' ' else [c]

/-- An entry as it is written for a terminal. -/
def text (e : LogEntry) : List Char :=
  e.head ++ indented e.message.toList ++ ['\n']

/-- Entries as they are shown where there is no terminal. -/
def shownText (entries : List LogEntry) : List Char :=
  entries.flatMap fun e => Text.plain e.text

end LogEntry

end EntityScript
