/-!
# Plain text

Text as it is written where no terminal shows it: without control sequences, and without control
characters other than white space.
-/

namespace EntityScript.Text

/-- The parts of the head of a device control string. -/
inductive HeadPart
  | start
  | parameters
  | intermediates
  deriving Repr, DecidableEq

/-- A control sequence that has begun. -/
inductive ControlSequence
  /-- An escape character, perhaps with intermediate characters. -/
  | escape (intermediate : Bool)
  /-- `ESC [` with the parameters of a function. -/
  | function
  /-- `ESC ]` with a command, which a bell ends. -/
  | command
  /-- `ESC P` with what stands before the string. -/
  | head (part : HeadPart)
  /-- A string that a string terminator ends. -/
  | string
  deriving Repr, DecidableEq

/-- What has been read before a character. -/
inductive PlainState
  | text
  | within (s : ControlSequence)
  /-- White space in a sequence shows what follows it, up to the next control character. -/
  | paused (s : ControlSequence)
  deriving Repr, DecidableEq

/-- The control characters that are white space. -/
def isSpacing (c : Char) : Bool :=
  ['\t', '\n', '\x0c', '\r'].contains c

/-- Control characters of ASCII. -/
def isControl (c : Char) : Bool :=
  c.toNat < 0x20 || c.toNat == 0x7f

def isAscii (c : Char) : Bool :=
  c.toNat < 0x80

/-- Whether a character outside sequences is shown. -/
def isShown (c : Char) : Bool :=
  !isControl c || isSpacing c

/-- The characters that abandon a sequence. -/
def isCancel (c : Char) : Bool :=
  c == '\x18' || c == '\x1a'

/-- Whether a character ends a string: the string terminator is the byte `9c`, and it counts in any
character whose encoding has it. -/
def endsString (c : Char) : Bool :=
  (String.utf8EncodeChar c).contains 0x9c

namespace ControlSequence

/-- Whether white space in a sequence is shown. -/
def showsSpacing : ControlSequence → Bool
  | escape _ | function => true
  | command | head _ | string => false

/-- What a printable character of ASCII makes of the head of a device control string. -/
def nextInHead (c : Char) (part : HeadPart) : ControlSequence :=
  if c.toNat < 0x30 then head .intermediates
  else if 0x40 ≤ c.toNat then string
  else
    match part with
    | .start => head .parameters
    | .parameters => if c.toNat < 0x3c then head .parameters else string
    | .intermediates => string

/-- What a character that is no escape makes of a sequence; none if it ends there. -/
def next? (c : Char) : ControlSequence → Option ControlSequence
  | escape intermediate =>
    if isControl c || !isAscii c then some (escape intermediate)
    else if c.toNat < 0x30 then some (escape true)
    else if intermediate then none
    else if c = '[' then some function
    else if c = ']' then some command
    else if c = 'P' then some (head .start)
    else if ['X', '^', '_'].contains c then some string
    else none
  | function => if isControl c || !isAscii c || c.toNat < 0x40 then some function else none
  | command => if c = '\x07' then none else some command
  | head part => some (if isControl c || !isAscii c then head part else nextInHead c part)
  | string => if endsString c then none else some string

end ControlSequence

namespace PlainState

/-- The state in which a sequence goes on, if it does. -/
def ofSequence : Option ControlSequence → PlainState
  | some s => within s
  | none => text

/-- The state after a character, and whether the character is shown. -/
def step (c : Char) : PlainState → PlainState × Bool
  | text =>
    if isShown c then (text, true)
    else if c = '\x1b' then (within (.escape false), false)
    else (text, false)
  | within s =>
    if c = '\x1b' then (within (.escape false), false)
    else if isCancel c then (text, false)
    else if s.showsSpacing && isSpacing c then (paused s, true)
    else (ofSequence (s.next? c), false)
  | paused s =>
    if isShown c then (if isAscii c then paused s else text, true)
    else if c = '\x1b' then (within (.escape false), false)
    else if isCancel c then (text, false)
    else (within s, false)

end PlainState

/-- What is shown of a text that follows others. -/
def plainFrom (s : PlainState) : List Char → List Char
  | [] => []
  | c :: cs =>
    let (next, shown) := s.step c
    if shown then c :: plainFrom next cs else plainFrom next cs

/-- What is shown of a text. -/
def plain (cs : List Char) : List Char :=
  plainFrom .text cs

end EntityScript.Text
