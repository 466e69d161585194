import EntityScript.Signal.Basic
/-!
# Reading type signals

A recursive descent reader. Each reader takes the text that is left and gives what it read with the
text after it; blanks may stand before every token. A failure keeps the text where it arose, which
gives its offset.
-/

namespace EntityScript.Signal

open Text

/-- Why a text is no signal. `tooDeep` stands for a spent bound on the depth of the readers. -/
inductive Reason
  | trailingInput
  | openParenthesis
  | shapeOfOther
  | openArguments
  | argumentCount
  | missingName
  | missingColon
  | openShape
  | tooDeep
  deriving Repr, DecidableEq

def Reason.message : Reason → String
  | trailingInput => "unexpected trailing input"
  | openParenthesis => "expected ')'"
  | shapeOfOther => "only arrays can have a shape"
  | openArguments => "expected '>'"
  | argumentCount => "arrays take one or two type arguments"
  | missingName => "expected a type name"
  | missingColon => "expected ':' after shape key"
  | openShape => "expected ',' or '\x7d'"
  | tooDeep => "nested too deeply"

/-- A reason and the text that was left where it arose. -/
structure Failure where
  reason : Reason
  rest : List Char
  deriving Repr

/-- The text after `c`, if that is the next token. -/
def eat? (c : Char) (cs : List Char) : Option (List Char) :=
  match trimStart cs with
  | [] => none
  | d :: rest => if d = c then some rest else none

/-- The text after `c`, which has to be the next token. -/
def expect (c : Char) (reason : Reason) (cs : List Char) : Except Failure (List Char) :=
  match eat? c cs with
  | some rest => .ok rest
  | none => .error ⟨reason, trimStart cs⟩

/-- The characters of names. -/
def isNameChar (c : Char) : Bool :=
  isAlphanumeric c || c == '_' || c == '\\' || c == '-'

/-- The longest name at the start of a text. -/
def readName (cs : List Char) : Except Failure (String × List Char) :=
  let text := trimStart cs
  if (text.takeWhile isNameChar).isEmpty then .error ⟨.missingName, text⟩
  else .ok (String.ofList (text.takeWhile isNameChar), text.dropWhile isNameChar)

/-- A union of one item is that item. -/
def ofAlternatives (first : Signal) : List Signal → Signal
  | [] => first
  | more => union (first :: more)

/-- The list brackets that follow a signal. -/
def readSuffixes (signal : Signal) (cs : List Char) : Signal × List Char :=
  match _h : trimStart cs with
  | '[' :: ']' :: rest => readSuffixes (list signal) rest
  | rest => (signal, rest)
termination_by cs.length
decreasing_by
  have := (List.dropWhile_sublist isBlank (l := cs)).length_le
  simp only [trimStart] at _h
  simp [_h] at this
  omega

theorem readSuffixes_bracket {signal : Signal} {cs rest : List Char} (h : trimStart cs = '[' :: ']' :: rest) :
    readSuffixes signal cs = readSuffixes (list signal) rest := by
  rw [readSuffixes]
  split
  · rename_i h'
    rw [h] at h'
    cases h'
    rfl
  · rename_i hne
    exact absurd h (hne _)

theorem readSuffixes_end {signal : Signal} {cs : List Char} (h : ∀ rest, trimStart cs ≠ '[' :: ']' :: rest) :
    readSuffixes signal cs = (signal, trimStart cs) := by
  rw [readSuffixes]
  split
  · rename_i h'
    exact absurd h' (h _)
  · rfl

/-- The signal of a name with arguments: a list keyword takes a value or a key and a value. -/
def ofArguments? (name : String) (args : List Signal) : Option Signal :=
  if isListKeyword name then
    match args with
    | [value] => some (list value)
    | [key, value] => some (map key value)
    | _ => none
  else some (generic name args)

/-! The readers call each other on ever shorter texts. `fuel` bounds their depth, and where it is spent
they fail by `tooDeep`, as no text makes them. Four units for each character are enough. -/

mutual

def readUnion : Nat → List Char → Except Failure (Signal × List Char)
  | 0, cs => .error ⟨.tooDeep, cs⟩
  | fuel + 1, cs => do
    let (first, cs) ← readItem fuel cs
    let (more, cs) ← readAlternatives fuel cs
    return (ofAlternatives first more, cs)

/-- The items after the first, each behind a bar. -/
def readAlternatives : Nat → List Char → Except Failure (List Signal × List Char)
  | 0, cs => .error ⟨.tooDeep, cs⟩
  | fuel + 1, cs =>
    match eat? '|' cs with
    | none => return ([], trimStart cs)
    | some cs => do
      let (item, cs) ← readItem fuel cs
      let (more, cs) ← readAlternatives fuel cs
      return (item :: more, cs)

def readItem : Nat → List Char → Except Failure (Signal × List Char)
  | 0, cs => .error ⟨.tooDeep, cs⟩
  | fuel + 1, cs =>
    match eat? '?' cs with
    | some cs => do
      let (inner, cs) ← readItem fuel cs
      return (nullable inner, cs)
    | none => do
      let (signal, cs) ← readPrimary fuel cs
      return readSuffixes signal cs

def readPrimary : Nat → List Char → Except Failure (Signal × List Char)
  | 0, cs => .error ⟨.tooDeep, cs⟩
  | fuel + 1, cs =>
    match eat? '(' cs with
    | some cs => do
      let (inner, cs) ← readUnion fuel cs
      let cs ← expect ')' .openParenthesis cs
      return (inner, cs)
    | none => do
      let (name, cs) ← readName cs
      match eat? '{' cs with
      | some cs =>
        if isListKeyword name then do
          let (fields, cs) ← readFields fuel cs
          return (shape fields, cs)
        else throw ⟨.shapeOfOther, cs⟩
      | none =>
        match eat? '<' cs with
        | some cs => do
          let (args, cs) ← readArguments fuel cs
          let cs ← expect '>' .openArguments cs
          match ofArguments? name args with
          | some signal => return (signal, cs)
          | none => throw ⟨.argumentCount, cs⟩
        | none => return (named name, trimStart cs)

/-- One argument or more, with commas between. -/
def readArguments : Nat → List Char → Except Failure (List Signal × List Char)
  | 0, cs => .error ⟨.tooDeep, cs⟩
  | fuel + 1, cs => do
    let (first, cs) ← readUnion fuel cs
    match eat? ',' cs with
    | none => return ([first], trimStart cs)
    | some cs => do
      let (more, cs) ← readArguments fuel cs
      return (first :: more, cs)

/-- The fields of a shape up to its closing brace; a comma may stand before it. -/
def readFields : Nat → List Char → Except Failure (List (ShapeField Signal) × List Char)
  | 0, cs => .error ⟨.tooDeep, cs⟩
  | fuel + 1, cs =>
    match eat? '}' cs with
    | some cs => return ([], cs)
    | none => do
      let (key, cs) ← readName cs
      let (optional, cs) := match eat? '?' cs with
        | some cs => (true, cs)
        | none => (false, trimStart cs)
      let cs ← expect ':' .missingColon cs
      let (type, cs) ← readUnion fuel cs
      let field : ShapeField Signal := ⟨key, optional, type⟩
      match eat? ',' cs with
      | some cs => do
        let (more, cs) ← readFields fuel cs
        return (field :: more, cs)
      | none => do
        let cs ← expect '}' .openShape cs
        return ([field], cs)

end

/-- A text that is no signal, with the byte offset of the fault. -/
structure ParseError where
  input : String
  offset : Nat
  reason : Reason
  deriving Repr, DecidableEq

def ParseError.message (e : ParseError) : String :=
  "invalid type signal '" ++ e.input ++ "': " ++ e.reason.message ++ " at offset " ++ toString e.offset

/-- The signal that the whole text writes, or the failure in reading it. -/
def read (cs : List Char) : Except Failure Signal := do
  let (signal, rest) ← readUnion (4 * cs.length + 4) cs
  match trimStart rest with
  | [] => return signal
  | rest => throw ⟨.trailingInput, rest⟩

/-- The signal that a text writes. -/
def parse (input : String) : Except ParseError Signal :=
  match read input.toList with
  | .ok signal => .ok signal
  | .error failure =>
    .error ⟨input, byteLength input.toList - byteLength failure.rest, failure.reason⟩

end EntityScript.Signal
