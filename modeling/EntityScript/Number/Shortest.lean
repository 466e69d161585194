import EntityScript.Number.Binary64
/-!
# Shortest decimal text

The decimal number with the fewest digits that reads back as a double, the nearest of those, and its
text: positional from `1e-5` up to `1e16`, with an exponent beyond.
-/

namespace EntityScript.Binary64

/-- The positive numbers that round to `mantissa · 2 ^ exponent`, in units of `2 ^ (exponent - 2)`:
the number and the two ends of its interval. -/
def interval (mantissa : Nat) (exponent : Int) : Nat × Nat × Nat :=
  let low := if mantissa = fullMantissa ∧ minExponent < exponent then 1 else 2
  (4 * mantissa, 4 * mantissa - low, 4 * mantissa + 2)

/-- The multiple of `step` nearest to `value` among its two neighbours that lie between `low` and
`high`; an exact tie goes to the even multiple. -/
def nearestMultiple? (value low high step : Nat) (closed : Bool) : Option Nat :=
  let below := value / step
  let inside (k : Nat) : Bool :=
    if closed then low ≤ k * step && k * step ≤ high else low < k * step && k * step < high
  let twice := 2 * (value % step)
  match inside below && 0 < below, inside (below + 1) with
  | true, true =>
    if twice < step then some below
    else if step < twice then some (below + 1)
    else some (below + below % 2)
  | true, false => some below
  | false, true => some (below + 1)
  | false, false => none

/-- The digits at the greatest scale, from `scale` down, that lie in the interval of a number. -/
def digitsFrom (mantissa : Nat) (exponent : Int) : Nat → Int → Nat × Int
  | 0, scale => (0, scale)
  | fuel + 1, scale =>
    let (value, low, high) := interval mantissa exponent
    let shift := exponent - 2
    let unit := twoTo shift * tenTo (-scale)
    let step := tenTo scale * twoTo (-shift)
    match nearestMultiple? (value * unit) (low * unit) (high * unit) step (mantissa % 2 = 0) with
    | some digits => (digits, scale)
    | none => digitsFrom mantissa exponent fuel (scale - 1)

/-- A decimal scale that no digit of the number reaches. -/
def topScale (mantissa : Nat) (exponent : Int) : Int :=
  ((mantissa.log2 : Int) + exponent) * 30103 / 100000 + 2

/-- The shortest digits of a positive number, with their scale. -/
def shortest (mantissa : Nat) (exponent : Int) : Nat × Int :=
  digitsFrom mantissa exponent 24 (topScale mantissa exponent)

/-- Digits without trailing zeros at their scale. -/
def positional (digits : List Char) (point : Int) : List Char :=
  if point ≤ 0 then '0' :: '.' :: (List.replicate (-point).toNat '0' ++ digits)
  else if digits.length ≤ point.toNat then
    digits ++ List.replicate (point.toNat - digits.length) '0' ++ ['.', '0']
  else digits.take point.toNat ++ '.' :: digits.drop point.toNat

/-- Digits with the decimal exponent of the first. -/
def scientific (digits : List Char) (exponent : Int) : List Char :=
  let sign := if exponent < 0 then '-' else '+'
  let fraction := if digits.length = 1 then [] else '.' :: digits.drop 1
  digits.take 1 ++ fraction ++ 'e' :: sign :: Nat.toDigits 10 exponent.natAbs

/-- The text of a positive number. -/
def positiveText (mantissa : Nat) (exponent : Int) : List Char :=
  let (number, scale) := shortest mantissa exponent
  let digits := Nat.toDigits 10 number
  let point := scale + digits.length
  if -5 < point ∧ point ≤ 16 then positional digits point else scientific digits (point - 1)

/-- The text of a finite number. -/
def finiteText (negative : Bool) (mantissa : Nat) (exponent : Int) : String :=
  String.ofList ((if negative then ['-'] else []) ++
    (if mantissa = 0 then ['0', '.', '0'] else positiveText mantissa exponent))

/-- The text of a number; only finite ones have one in JSON. -/
def text : Binary64 → String
  | finite negative mantissa exponent _ => finiteText negative mantissa exponent
  | infinite negative => if negative then "-inf" else "inf"
  | nan => "nan"

end EntityScript.Binary64
