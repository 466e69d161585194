import EntityScript.Log.Line
import EntityScript.Run.Generate
/-!
# Command line

The commands `generate` and `check`, their arguments and what they print.
-/

namespace EntityScript.CommandLine

inductive Command
  | generate (config : String) (dryRun : Bool)
  | check (config : String)
  deriving Repr, DecidableEq

inductive Invocation
  | version
  /-- A command with the number of `-v` that it was given. -/
  | command (verbosity : Nat) (command : Command)
  deriving Repr, DecidableEq

/-! ## Arguments -/

/-- The options that a command was given. -/
structure Given where
  config : Option String := none
  dryRun : Bool := false
  /-- The number of `-v` after the command. -/
  verbosity : Nat := 0
  deriving Repr

/-- Sets the configuration file, which may be given once and not be empty. -/
def Given.withConfig (g : Given) (path : String) : Option Given :=
  if g.config.isSome || path == "" then none else some { g with config := some path }

/-- Whether a word can be the value of the option before it. -/
def isValue (word : String) : Bool :=
  word == "-" || word.toList.head? != some '-'

/-- The value that stands in the same word as its letter. -/
def attached (value : List Char) : String :=
  match value with
  | '=' :: value => String.ofList value
  | value => String.ofList value

/-- What the letters of a word ask for. -/
inductive Letters
  | given (g : Given)
  /-- The value of the last letter is the next word. -/
  | needsConfig (g : Given)
  | wrong

/-- The letters after a hyphen. -/
def readLetters (g : Given) : List Char → Letters
  | [] => .given g
  | 'v' :: letters => readLetters { g with verbosity := g.verbosity + 1 } letters
  | 'c' :: [] => .needsConfig g
  | 'c' :: value =>
    match g.withConfig (attached value) with
    | some g => .given g
    | none => .wrong
  | _ :: _ => .wrong

/-- The words after a command; `dryRuns` tells whether it knows `--dry-run`. -/
def readOptions (dryRuns : Bool) (g : Given) : List String → Option Given
  | [] => some g
  | "--" :: [] => some g
  | "--verbose" :: words => readOptions dryRuns { g with verbosity := g.verbosity + 1 } words
  | "--dry-run" :: words =>
    if dryRuns && !g.dryRun then readOptions dryRuns { g with dryRun := true } words else none
  | "--config" :: value :: words =>
    if isValue value then (g.withConfig value).bind fun g => readOptions dryRuns g words else none
  | word :: words =>
    match Text.after? "--config=".toList word.toList with
    | some value =>
      match g.withConfig (String.ofList value) with
      | some g => readOptions dryRuns g words
      | none => none
    | none =>
      match word.toList with
      | '-' :: letter :: letters =>
        match readLetters g (letter :: letters), words with
        | .given g, words => readOptions dryRuns g words
        | .needsConfig g, value :: words =>
          if isValue value then
            match g.withConfig value with
            | some g => readOptions dryRuns g words
            | none => none
          else none
        | _, _ => none
      | _ => none

/-- The configuration file that is used when none is given. -/
def defaultConfig : String := "tswink.toml"

/-- The verbosity that counts: the one after the command, if there is one. -/
def verbosity (before after : Nat) : Nat :=
  if after = 0 then before else after

/-- The invocation that a command and the words after it make. -/
def readCommand (before : Nat) (name : String) (words : List String) : Option Invocation :=
  if name = "generate" then
    (readOptions true {} words).map fun g =>
      .command (verbosity before g.verbosity) (.generate (g.config.getD defaultConfig) g.dryRun)
  else if name = "check" then
    (readOptions false {} words).map fun g =>
      .command (verbosity before g.verbosity) (.check (g.config.getD defaultConfig))
  else none

/-- What the letters before a command ask for: a version, or more verbosity. -/
def readGlobalLetters (count : Nat) : List Char → Option (Option Nat)
  | [] => some (some count)
  | 'v' :: letters => readGlobalLetters (count + 1) letters
  | 'V' :: _ => some none
  | _ :: _ => none

/-- The invocation that words make, after `count` times `-v`; words of any other form make none. -/
def read (count : Nat) : List String → Option Invocation
  | [] => none
  | word :: words =>
    if word = "--version" then some .version
    else if word = "--verbose" then read (count + 1) words
    else
      match word.toList with
      | '-' :: letter :: letters =>
        match readGlobalLetters count (letter :: letters) with
        | some (some count) => read count words
        | some none => some .version
        | none => none
      | _ => readCommand count word words

/-! ## Runs -/

/-- What a run shows. -/
structure Outcome where
  exitCode : Nat
  output : String := ""
  log : List LogEntry := []
  /-- The lines that tell why the run failed. -/
  complaint : List String := []
  deriving Repr

/-- What a run writes on standard error. -/
def Outcome.errors (o : Outcome) : String :=
  String.ofList (LogEntry.shownText o.log ++
    o.complaint.flatMap fun line => LogEntry.indented line.toList ++ ['\n'])

/-- The least verbosity at which entries of a level are shown. -/
def shownFrom : LogLevel → Nat
  | .warn => 0
  | .info => 1
  | .debug => 2

/-- The entries that are shown at a verbosity. -/
def shown (verbosity : Nat) (log : List LogEntry) : List LogEntry :=
  log.filter fun e => shownFrom e.level ≤ verbosity

/-- Lines of output. -/
def lines (ls : List String) : String :=
  String.join (ls.map (· ++ "\n"))

/-- A count with its noun. -/
def counted (n : Nat) (noun : String) : String :=
  toString n ++ " " ++ noun ++ (if n = 1 then "" else "s")

/-- What `generate` prints. -/
def summaryText (root : String) (s : RunSummary) : String :=
  let written :=
    if s.written.isEmpty then []
    else "Written:" :: s.written.map fun path => "  + " ++ Path.relativeTo root path
  lines (written ++
    [toString s.written.length ++ " written, " ++ toString s.unchanged.length ++ " unchanged"])

/-- What `generate --dry-run` prints. -/
def previewText (root : String) (files : List OutputFile) : String :=
  lines (files.flatMap (fun f => ["── " ++ Path.relativeTo root f.path ++ " ──", f.content]) ++
    ["── Summary ──", toString files.length ++ " files would be generated"])

/-- What `check` prints. -/
def checkText (config : String) (p : Project) (files : List OutputFile) : String :=
  let enums := p.sources.filterMap (·.entity.enumeration?)
  lines ["✓ " ++ config ++ " is valid", "",
    "  " ++ counted p.models.length "model" ++ ", " ++ counted enums.length "enum",
    "  " ++ counted files.length "file" ++ " would be generated"]

/-- The outcome of a step: its output if it succeeds, else a failure. -/
def outcome {α : Type} (verbosity : Nat) (log : List LogEntry) (result : Except RunError α)
    (text : α → String) : Outcome :=
  match result with
  | .ok a => { exitCode := 0, output := text a, log := shown verbosity log }
  | .error e => { exitCode := 1, log := shown verbosity log, complaint := ["Error: ", "   0: " ++ e.message, "   1: " ++ e.causeMessage] }

/-- The outcome of inputs that cannot be used. -/
def refusal (e : InputError) : Outcome :=
  { exitCode := 1,
    complaint := ("  × " ++ e.message) :: (e.help?.map ("  help: " ++ ·)).toList }

/-- The entry with which `generate` starts. -/
def startEntry (config : String) (p : Project) : LogEntry :=
  ⟨.info, .command, "generating " ++ Project.language ++ " from " ++ toString p.sources.length ++
    " entity sources in " ++ config⟩

/-- Runs a command. -/
def runCommand (d : Disk) (verbosity : Nat) : Command → Disk × Outcome
  | .generate config dryRun =>
    match Project.openAt d config with
    | .error e => (d, refusal e)
    | .ok p =>
      let start := startEntry config p
      if dryRun then
        let rendered := p.preview d
        (d, outcome verbosity (start :: rendered.log) rendered.outcome (previewText p.root))
      else
        let (d, saved) := p.generate d
        (d, outcome verbosity (start :: saved.log) saved.outcome (summaryText p.root))
  | .check config =>
    match Project.openAt d config with
    | .error e => (d, refusal e)
    | .ok p =>
      let rendered := p.preview d
      (d, outcome verbosity rendered.log rendered.outcome (checkText config p))

/-- The name and version of the program. -/
def versionText : String := lines ["tswink 0.1.0"]

/-- How the program is called. -/
def usage : List String :=
  ["usage: tswink [-v] generate [--config <path>] [--dry-run]",
    "       tswink [-v] check [--config <path>]"]

/-- Runs the program with arguments. -/
def run (d : Disk) (words : List String) : Disk × Outcome :=
  match read 0 words with
  | none => (d, { exitCode := 2, complaint := usage })
  | some .version => (d, { exitCode := 0, output := versionText })
  | some (.command verbosity command) => runCommand d verbosity command

end EntityScript.CommandLine
