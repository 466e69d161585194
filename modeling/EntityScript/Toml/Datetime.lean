/-!
# Datetimes

The dates and times of TOML, read from their text and written in one normal form: a `T` between date
and time, seconds always, and no zeros at the end of a fraction.
-/

namespace EntityScript.Toml

structure Date where
  year : Nat
  month : Nat
  day : Nat
  deriving Repr, DecidableEq

structure Time where
  hour : Nat
  minute : Nat
  second : Nat := 0
  nanosecond : Nat := 0
  deriving Repr, DecidableEq

inductive Offset
  | utc
  | minutes (east : Int)
  deriving Repr, DecidableEq

inductive Datetime
  | date (date : Date)
  | time (time : Time)
  | dateTime (date : Date) (time : Time) (offset : Option Offset)
  deriving Repr, DecidableEq

/-- The value of decimal digits. -/
def decimalValue (digits : List Char) : Nat :=
  digits.foldl (fun n d => 10 * n + (d.toNat - '0'.toNat)) 0

/-- A number in at least `width` digits. -/
def padded (width n : Nat) : List Char :=
  let digits := Nat.toDigits 10 n
  List.replicate (width - digits.length) '0' ++ digits

namespace Datetime

/-! ## Text -/

def dateText (d : Date) : List Char :=
  padded 4 d.year ++ '-' :: padded 2 d.month ++ '-' :: padded 2 d.day

/-- The fraction of a second, if there is one. -/
def fractionText (nanosecond : Nat) : List Char :=
  if nanosecond = 0 then []
  else '.' :: ((padded 9 nanosecond).reverse.dropWhile (· == '0')).reverse

def timeText (t : Time) : List Char :=
  padded 2 t.hour ++ ':' :: padded 2 t.minute ++ ':' :: padded 2 t.second ++ fractionText t.nanosecond

def offsetText : Offset → List Char
  | .utc => ['Z']
  | .minutes east =>
    (if east < 0 then '-' else '+') :: padded 2 (east.natAbs / 60) ++ ':' :: padded 2 (east.natAbs % 60)

/-- The normal form of a datetime. -/
def text : Datetime → String
  | date d => String.ofList (dateText d)
  | time t => String.ofList (timeText t)
  | dateTime d t none => String.ofList (dateText d ++ 'T' :: timeText t)
  | dateTime d t (some offset) => String.ofList (dateText d ++ 'T' :: timeText t ++ offsetText offset)

/-! ## Reading -/

/-- A number of exactly `width` digits, at most `limit`. -/
def number? (width limit : Nat) (cs : List Char) : Option (Nat × List Char) :=
  let digits := cs.takeWhile Char.isDigit
  if digits.length = width ∧ decimalValue digits ≤ limit then
    some (decimalValue digits, cs.dropWhile Char.isDigit)
  else none

/-- The text after a character. -/
def drop? (c : Char) : List Char → Option (List Char)
  | [] => none
  | d :: cs => if d = c then some cs else none

def isLeapYear (year : Nat) : Bool :=
  year % 4 == 0 && (year % 100 != 0 || year % 400 == 0)

def daysIn (year month : Nat) : Nat :=
  if month = 2 then (if isLeapYear year then 29 else 28)
  else if [4, 6, 9, 11].contains month then 30
  else 31

def date? (cs : List Char) : Option (Date × List Char) := do
  let (year, cs) ← number? 4 9999 cs
  let cs ← drop? '-' cs
  let (month, cs) ← number? 2 12 cs
  let cs ← drop? '-' cs
  let (day, cs) ← number? 2 (daysIn year month) cs
  if month = 0 ∨ day = 0 then none else some (⟨year, month, day⟩, cs)

/-- The nanoseconds of a fraction; digits after the ninth do not count. -/
def nanoseconds (digits : List Char) : Nat :=
  decimalValue (digits.take 9 ++ List.replicate (9 - digits.length) '0')

/-- The nanoseconds after a second: those of its fraction, if it has one. -/
def fraction? (cs : List Char) : Option (Nat × List Char) :=
  match cs with
  | '.' :: cs =>
    let digits := cs.takeWhile Char.isDigit
    if digits.isEmpty then none else some (nanoseconds digits, cs.dropWhile Char.isDigit)
  | cs => some (0, cs)

/-- Hours and minutes, perhaps with seconds; a leap second is allowed. -/
def time? (cs : List Char) : Option (Time × List Char) := do
  let (hour, cs) ← number? 2 23 cs
  let cs ← drop? ':' cs
  let (minute, cs) ← number? 2 59 cs
  match cs with
  | ':' :: cs =>
    let (second, cs) ← number? 2 60 cs
    let (nanosecond, cs) ← fraction? cs
    some (⟨hour, minute, second, nanosecond⟩, cs)
  | cs => some ({ hour, minute }, cs)

/-- The offset that a text is, if it is not empty. -/
def offset? : List Char → Option (Option Offset)
  | [] => some none
  | ['Z'] => some (some .utc)
  | ['z'] => some (some .utc)
  | sign :: cs =>
    if sign = '+' ∨ sign = '-' then do
      let (hours, cs) ← number? 2 23 cs
      let cs ← drop? ':' cs
      let (minutes, cs) ← number? 2 59 cs
      let east : Int := 60 * hours + minutes
      if cs.isEmpty then some (some (.minutes (if sign = '-' then -east else east))) else none
    else none

/-- The datetime that a whole text writes. -/
def read? (cs : List Char) : Option Datetime :=
  match date? cs with
  | some (d, []) => some (date d)
  | some (d, separator :: rest) =>
    if ['T', 't', ' '].contains separator then do
      let (t, rest) ← time? rest
      let offset ← offset? rest
      some (dateTime d t offset)
    else none
  | none =>
    match time? cs with
    | some (t, []) => some (time t)
    | _ => none

end Datetime

end EntityScript.Toml
