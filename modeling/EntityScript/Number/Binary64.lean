/-!
# Doubles

The binary floating-point numbers of 64 bits, and the one nearest to a decimal number. A finite one
is a mantissa of at most 53 bits times a power of two; the signs of zero differ.
-/

namespace EntityScript

namespace Binary64

/-- The exponent of the smallest numbers. -/
def minExponent : Int := -1074

/-- The exponent of the largest numbers. -/
def maxExponent : Int := 971

/-- The mantissas from here on have 53 bits. -/
def fullMantissa : Nat := 0x10000000000000

/-- Whether a mantissa and an exponent fit in 64 bits. -/
structure InRange (mantissa : Nat) (exponent : Int) : Prop where
  mantissa_lt : mantissa < 2 * fullMantissa
  min_le : minExponent ≤ exponent
  le_max : exponent ≤ maxExponent

end Binary64

inductive Binary64
  /-- `± mantissa · 2 ^ exponent` -/
  | finite (negative : Bool) (mantissa : Nat) (exponent : Int) (inRange : Binary64.InRange mantissa exponent)
  | infinite (negative : Bool)
  | nan
  deriving Repr, DecidableEq

namespace Binary64

/-- A power of two; a negative exponent counts as zero. -/
def twoTo (exponent : Int) : Nat :=
  Nat.pow 2 exponent.toNat

/-- A power of ten; a negative exponent counts as zero. -/
def tenTo (exponent : Int) : Nat :=
  Nat.pow 10 exponent.toNat

theorem twoTo_pos (e : Int) : 0 < twoTo e :=
  Nat.pow_pos (by decide)

theorem tenTo_pos (e : Int) : 0 < tenTo e :=
  Nat.pow_pos (by decide)

/-- The quotient to the nearest whole number, a half to the even one. -/
def divideToEven (num den : Nat) : Nat :=
  let quotient := num / den
  let twice := 2 * (num % den)
  if twice < den then quotient
  else if den < twice then quotient + 1
  else quotient + quotient % 2

/-- A bound that is whole is kept: it leaves no rest, so that nothing is rounded up to more. -/
theorem divideToEven_le {num den bound : Nat} (hden : 0 < den) (h : num ≤ bound * den) :
    divideToEven num den ≤ bound := by
  have hle : num / den ≤ bound := Nat.div_le_of_le_mul (by rwa [Nat.mul_comm])
  have hmod := Nat.div_add_mod num den
  unfold divideToEven
  dsimp only
  rcases Nat.lt_or_eq_of_le hle with hlt | heq
  · split
    · omega
    · split <;> omega
  · have hzero : num % den = 0 := by
      rw [heq, Nat.mul_comm] at hmod
      omega
    rw [hzero, if_pos (by omega)]
    exact hle

/-- The greatest `k` with `2 ^ k ≤ num / den`. -/
def log2Quotient (num den : Nat) : Int :=
  let estimate : Int := (num.log2 : Int) - (den.log2 : Int)
  if den * twoTo estimate ≤ num * twoTo (-estimate) then estimate else estimate - 1

/-- At an exponent 52 below the quotient's own or above, the mantissa has 53 bits or is the next power of two. -/
theorem mul_twoTo_le (num : Nat) {den : Nat} (hden : 0 < den) {exponent : Int}
    (h : log2Quotient num den - 52 ≤ exponent) :
    num * twoTo (-exponent) ≤ 2 * fullMantissa * (den * twoTo exponent) := by
  have hfull : 2 * fullMantissa = 2 ^ 53 := rfl
  have hnum : num < 2 ^ (num.log2 + 1) := Nat.lt_log2_self
  have hlog : 2 ^ den.log2 ≤ den := Nat.log2_self_le (by omega)
  unfold log2Quotient at h
  dsimp only at h
  split at h
  · have hpow : 2 ^ (num.log2 + 1) * 2 ^ (-exponent).toNat ≤ 2 ^ 53 * (2 ^ den.log2 * 2 ^ exponent.toNat) := by
      simp only [← Nat.pow_add]
      exact Nat.pow_le_pow_right (by decide) (by omega)
    calc num * twoTo (-exponent) ≤ 2 ^ (num.log2 + 1) * 2 ^ (-exponent).toNat :=
          Nat.mul_le_mul_right _ (Nat.le_of_lt hnum)
      _ ≤ 2 ^ 53 * (2 ^ den.log2 * 2 ^ exponent.toNat) := hpow
      _ ≤ 2 * fullMantissa * (den * twoTo exponent) := Nat.mul_le_mul_left _ (Nat.mul_le_mul_right _ hlog)
  · rename_i hgt
    generalize hestimate : (num.log2 : Int) - (den.log2 : Int) = estimate at h hgt
    have hpow : twoTo estimate * twoTo (-exponent) ≤ 2 * fullMantissa * (twoTo exponent * twoTo (-estimate)) := by
      rw [hfull]
      simp only [twoTo, Nat.pow_eq, ← Nat.pow_add]
      exact Nat.pow_le_pow_right (by decide) (by omega)
    refine Nat.le_of_mul_le_mul_right ?_ (twoTo_pos (-estimate))
    calc num * twoTo (-exponent) * twoTo (-estimate) = num * twoTo (-estimate) * twoTo (-exponent) :=
          Nat.mul_right_comm ..
      _ ≤ den * twoTo estimate * twoTo (-exponent) := Nat.mul_le_mul_right _ (Nat.le_of_not_le hgt)
      _ = den * (twoTo estimate * twoTo (-exponent)) := Nat.mul_assoc ..
      _ ≤ den * (2 * fullMantissa * (twoTo exponent * twoTo (-estimate))) := Nat.mul_le_mul_left _ hpow
      _ = 2 * fullMantissa * (den * twoTo exponent) * twoTo (-estimate) := by
        rw [Nat.mul_left_comm, ← Nat.mul_assoc den, ← Nat.mul_assoc (2 * fullMantissa)]

/-- The double of a mantissa that was rounded: one of 54 bits is carried into the exponent, and a
number that is too great for a finite double is infinite. -/
def ofRounded (negative : Bool) (mantissa : Nat) (exponent : Int) (hmantissa : mantissa ≤ 2 * fullMantissa)
    (hmin : minExponent ≤ exponent) : Binary64 :=
  if hcarry : mantissa = 2 * fullMantissa then
    if hmax : exponent + 1 ≤ maxExponent then finite negative fullMantissa (exponent + 1) ⟨by decide, by omega, hmax⟩
    else infinite negative
  else
    if hmax : exponent ≤ maxExponent then finite negative mantissa exponent ⟨by omega, hmin, hmax⟩
    else infinite negative

/-- The double nearest to a positive quotient. -/
def ofQuotient (negative : Bool) (num den : Nat) (hden : 0 < den) : Binary64 :=
  let exponent := max minExponent (log2Quotient num den - 52)
  ofRounded negative (divideToEven (num * twoTo (-exponent)) (den * twoTo exponent)) exponent
    (divideToEven_le (Nat.mul_pos hden (twoTo_pos _)) (mul_twoTo_le num hden (Int.le_max_right ..)))
    (Int.le_max_left ..)

/-- The number of decimal digits. -/
def digitCount (n : Nat) : Nat :=
  (Nat.toDigits 10 n).length

/-- The double nearest to `± digits · 10 ^ scale`. -/
def ofDecimal (negative : Bool) (digits : Nat) (scale : Int) : Binary64 :=
  let magnitude := scale + digitCount digits
  if digits = 0 ∨ magnitude < -330 then finite negative 0 minExponent ⟨by decide, by decide, by decide⟩
  else if 310 < magnitude then infinite negative
  else ofQuotient negative (digits * tenTo scale) (tenTo (-scale)) (tenTo_pos _)

end Binary64

end EntityScript
