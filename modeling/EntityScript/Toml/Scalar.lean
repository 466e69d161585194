import EntityScript.Text.Cut
import EntityScript.Toml.Value
/-!
# Bare scalars

Numbers, truth values and datetimes: the TOML values that are written without quotes or brackets.
-/

namespace EntityScript.Toml.Scalar

/-- The digits of a number without the underscores between them. -/
def digits? (isDigit : Char → Bool) (cs : List Char) : Option (List Char) :=
  let groups := Text.splitWhere (· == '_') cs
  if groups.all fun group => !group.isEmpty && group.all isDigit then some groups.flatten else none

/-- A sign, if there is one, and the text after it. -/
def sign : List Char → Bool × List Char
  | '-' :: cs => (true, cs)
  | '+' :: cs => (false, cs)
  | cs => (false, cs)

/-- Decimal digits that start with a zero only if that is all. -/
def wholeDigits? (cs : List Char) : Option (List Char) := do
  let digits ← digits? Char.isDigit cs
  if digits.head? = some '0' ∧ 1 < cs.length then none else some digits

/-- The value of a digit of any base up to sixteen. -/
def digitValue (c : Char) : Nat :=
  if c.isDigit then c.toNat - '0'.toNat else c.toLower.toNat - 'a'.toNat + 10

def isHexDigit (c : Char) : Bool :=
  c.isDigit || ('a' ≤ c.toLower && c.toLower ≤ 'f')

/-- The value of digits in a base. -/
def valueIn (base : Nat) (digits : List Char) : Nat :=
  digits.foldl (fun n d => base * n + digitValue d) 0

/-- The bases that a number may name, with their digits. -/
def base? : Char → Option (Nat × (Char → Bool))
  | 'x' => some (16, isHexDigit)
  | 'o' => some (8, fun c => '0' ≤ c && c ≤ '7')
  | 'b' => some (2, fun c => c == '0' || c == '1')
  | _ => none

/-- A whole number; only a decimal one may have a sign. -/
def integer? (cs : List Char) : Option Int :=
  match cs with
  | '0' :: letter :: rest => do
    let (base, isDigit) ← base? letter
    let digits ← digits? isDigit rest
    return valueIn base digits
  | _ => do
    let digits ← wholeDigits? (sign cs).2
    let number : Int := decimalValue digits
    return if (sign cs).1 then -number else number

/-- The digits after a point, if there is one. -/
def fractionDigits? : List Char → Option (List Char)
  | [] => some []
  | '.' :: cs => digits? Char.isDigit cs
  | _ => none

/-- The exponent after its letter, if there is one. -/
def exponent? : List Char → Option Int
  | [] => some 0
  | _ :: cs => do
    let digits ← digits? Char.isDigit (sign cs).2
    let number : Int := decimalValue digits
    return if (sign cs).1 then -number else number

/-- A decimal number with a fraction or an exponent. One that is too great for a double is oversized. -/
def float? (cs : List Char) : Option Value := do
  let (negative, number) := sign cs
  let isExponent (c : Char) := c == 'e' || c == 'E'
  let decimal := number.takeWhile (!isExponent ·)
  let whole ← wholeDigits? (decimal.takeWhile (· != '.'))
  let fraction ← fractionDigits? (decimal.dropWhile (· != '.'))
  let exponent ← exponent? (number.dropWhile (!isExponent ·))
  let digits := decimalValue (whole ++ fraction)
  return match Binary64.ofDecimal negative digits (exponent - fraction.length) with
    | .finite n m e h => .float (.finite n m e h)
    | _ => .oversized

/-- The values that are written as words. -/
def words : List (String × Value) :=
  [("true", .boolean true), ("false", .boolean false), ("inf", .float (.infinite false)),
    ("+inf", .float (.infinite false)), ("-inf", .float (.infinite true)), ("nan", .float .nan),
    ("+nan", .float .nan), ("-nan", .float .nan)]

/-- The value that a bare text writes. -/
def read? (cs : List Char) : Option Value :=
  match words.lookup (String.ofList cs) with
  | some value => some value
  | none =>
    match integer? cs with
    | some n => some (if isRepresentable n then .integer n else .oversized)
    | none =>
      match float? cs with
      | some v => some v
      | none => (Datetime.read? cs).map .datetime

end EntityScript.Toml.Scalar
