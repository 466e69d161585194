import Mathlib.Data.Nat.Digits.Defs
import EntityScript.Number.Shortest
import EntityScript.Proofs.Literals
/-!
# The texts of numbers

Integers and doubles are written as decimal numbers. For a double this rests on that the search for its shortest
digits ends: among the scales that it tries is one whose step is shorter than the interval of the double.
-/

namespace EntityScript

/-! ## Digits -/

namespace Literal

/-- Whether no digit follows. -/
def EndsDigits (cs : List Char) : Prop :=
  ∀ c ∈ cs.head?, c.isDigit = false

theorem isDigits_iff {cs : List Char} : isDigits cs = true ↔ cs ≠ [] ∧ ∀ c ∈ cs, c.isDigit = true := by
  simp [isDigits]

theorem all_of_isWhole {cs : List Char} (h : isWhole cs = true) : ∀ c ∈ cs, c.isDigit = true := by
  unfold isWhole at h
  split at h
  · cases h
  · simp
  · rw [Bool.and_eq_true] at h
    exact List.all_eq_true.1 h.2

theorem isUnsigned_append {whole rest : List Char} (hw : isWhole whole = true) (hends : EndsDigits rest)
    (hrest : isFraction rest = true) : isUnsigned (whole ++ rest) = true := by
  have htake := Text.takeWhile_run (all_of_isWhole hw) hends
  have hdrop := Text.dropWhile_run (all_of_isWhole hw) hends
  rw [isUnsigned, htake, hdrop, hw, hrest]
  rfl

theorem isFraction_point {ds rest : List Char} (hd : isDigits ds = true) (hends : EndsDigits rest)
    (hrest : isExponent rest = true) : isFraction ('.' :: (ds ++ rest)) = true := by
  have htake := Text.takeWhile_run (isDigits_iff.1 hd).2 hends
  have hdrop := Text.dropWhile_run (isDigits_iff.1 hd).2 hends
  rw [isFraction, htake, hdrop, hd, hrest]
  rfl

theorem isUnsigned_point {whole ds : List Char} (hw : isWhole whole = true) (hd : isDigits ds = true) :
    isUnsigned (whole ++ '.' :: ds) = true := by
  refine isUnsigned_append hw (by simp [EndsDigits]) ?_
  rw [← List.append_nil ds]
  exact isFraction_point hd (by simp [EndsDigits]) rfl

/-- Digits of which the first is not zero. -/
structure Leads (digits : List Char) : Prop where
  head : ∃ d ds, digits = d :: ds ∧ d ≠ '0'
  digit : ∀ d ∈ digits, d.isDigit = true

theorem Leads.isWhole {digits : List Char} (h : Leads digits) : isWhole digits = true := by
  obtain ⟨⟨d, ds, rfl, hd⟩, hall⟩ := h
  rw [Literal.isWhole]
  · simpa [hd] using hall
  · rintro rfl
    exact absurd rfl hd

/-- A number that is not zero does not start with a zero. -/
theorem leads_toDigits {n : Nat} (hn : 0 < n) : Leads (Nat.toDigits 10 n) := by
  refine ⟨?_, fun c hc => Nat.isDigit_of_mem_toDigits (by decide) (by decide) hc⟩
  induction n using Nat.strong_induction_on with
  | _ n ih =>
    rw [Nat.toDigits_eq_if (by decide)]
    split
    · rename_i hlt
      have hdigits : ∀ n < 10, 0 < n → Nat.digitChar n ≠ '0' := by decide
      exact ⟨_, [], rfl, hdigits n hlt hn⟩
    · rename_i hge
      obtain ⟨d, ds, hds, hd⟩ := ih (n / 10) (by omega) (by omega)
      exact ⟨d, ds ++ [Nat.digitChar (n % 10)], by rw [hds, List.cons_append], hd⟩

theorem isDigits_toDigits (n : Nat) : isDigits (Nat.toDigits 10 n) = true :=
  isDigits_iff.2 ⟨Nat.toDigits_ne_nil, fun _ hc => Nat.isDigit_of_mem_toDigits (by decide) (by decide) hc⟩

theorem isNumber_of_isUnsigned {cs : List Char} (negative : Bool) (h : isUnsigned cs = true) :
    isNumber ((if negative then ['-'] else []) ++ cs) = true := by
  cases negative with
  | true => exact h
  | false =>
    simp only [Bool.false_eq_true, if_false, List.nil_append]
    unfold isNumber
    split
    · cases h
    · exact h

/-- An integer is written as a number. -/
theorem isNumber_integer (n : Int) : isNumber (toString n).toList = true := by
  have hnat (n : Nat) : isUnsigned n.repr.toList = true := by
    rw [Nat.repr_eq_ofList_toDigits, String.toList_ofList]
    have hwhole : isWhole (Nat.toDigits 10 n) = true := by
      rcases Nat.eq_zero_or_pos n with rfl | hn
      · rfl
      · exact (leads_toDigits hn).isWhole
    rw [← List.append_nil (Nat.toDigits 10 n)]
    exact isUnsigned_append hwhole (by simp [EndsDigits]) rfl
  rw [Int.toString_eq_repr, Int.repr_eq_if]
  split
  · exact isNumber_of_isUnsigned false (hnat _)
  · rw [String.toList_append]
    exact isNumber_of_isUnsigned true (hnat _)

end Literal

namespace Binary64

open Literal

/-! ## The shortest digits -/

theorem nearestMultiple?_pos {value low high step k : Nat} {closed : Bool}
    (h : nearestMultiple? value low high step closed = some k) : 0 < k := by
  unfold nearestMultiple? at h
  dsimp only at h
  split at h
  · rename_i hbelow _
    rw [Bool.and_eq_true, decide_eq_true_eq] at hbelow
    split_ifs at h <;> cases h <;> omega
  · rename_i hbelow _
    rw [Bool.and_eq_true, decide_eq_true_eq] at hbelow
    cases h
    omega
  · cases h
    exact Nat.succ_pos _
  · cases h

/-- A step that is shorter than what is left of the interval meets it. -/
theorem nearestMultiple?_isSome {value low high step : Nat} (closed : Bool) (hlow : low ≤ value) (hpos : 0 < step)
    (hstep : value + step < high) : (nearestMultiple? value low high step closed).isSome = true := by
  have habove : value < (value / step + 1) * step := by
    have := Nat.lt_mul_div_succ value hpos
    rwa [Nat.mul_comm] at this
  have hbelow : (value / step + 1) * step < high := by
    have := Nat.div_mul_le_self value step
    rw [Nat.add_mul]
    omega
  unfold nearestMultiple?
  dsimp only
  have hinside : (if closed = true then decide (low ≤ (value / step + 1) * step) && decide ((value / step + 1) * step ≤ high)
      else decide (low < (value / step + 1) * step) && decide ((value / step + 1) * step < high)) = true := by
    cases closed
    · simp only [Bool.false_eq_true, if_false, Bool.and_eq_true, decide_eq_true_eq]
      omega
    · simp only [if_true, Bool.and_eq_true, decide_eq_true_eq]
      omega
  split
  · split_ifs <;> rfl
  · rfl
  · rfl
  · rename_i hnone
    cases hinside.symm.trans hnone

theorem tenTo_mul_le {s s' : Int} (h : s ≤ s') : tenTo s * tenTo (-s') ≤ tenTo s' * tenTo (-s) :=
  Nat.mul_le_mul (Nat.pow_le_pow_right (by decide) (by omega)) (Nat.pow_le_pow_right (by decide) (by omega))

/-- The last scale that is tried for a mantissa of this many bits. -/
def lastScale (log : Nat) (exponent : Int) : Int :=
  (log + exponent) * 30103 / 100000 + 2 - 23

/-- A step at this scale is shorter than what is left of the interval. -/
def Fits (exponent scale : Int) : Prop :=
  tenTo scale * twoTo (-(exponent - 2)) < 2 * (twoTo (exponent - 2) * tenTo (-scale))

/-- A scale that fits the mantissas of 53 bits fits them all; for these, the exponents are tried one by one. -/
theorem fits_lastScale {exponent : Int} (hmin : minExponent ≤ exponent) (hmax : exponent ≤ maxExponent) {log : Nat}
    (hlog : log ≤ 52) : Fits exponent (lastScale log exponent) := by
  have hall : ∀ n : Nat, n < 2046 → tenTo (lastScale 52 (n - 1074)) * twoTo (-((n - 1074 : Int) - 2)) <
      2 * (twoTo ((n - 1074 : Int) - 2) * tenTo (-lastScale 52 (n - 1074))) := by
    decide +kernel
  have hfull : Fits exponent (lastScale 52 exponent) := by
    have h := hall (exponent + 1074).toNat (by simp only [maxExponent] at hmax; omega)
    rwa [show ((exponent + 1074).toNat : Int) - 1074 = exponent by simp only [minExponent] at hmin; omega] at h
  have hle : lastScale log exponent ≤ lastScale 52 exponent := by
    unfold lastScale
    omega
  unfold Fits at hfull ⊢
  refine Nat.lt_of_mul_lt_mul_right (a := tenTo (-lastScale 52 exponent)) ?_
  calc tenTo (lastScale log exponent) * twoTo (-(exponent - 2)) * tenTo (-lastScale 52 exponent)
      = tenTo (lastScale log exponent) * tenTo (-lastScale 52 exponent) * twoTo (-(exponent - 2)) := by
        rw [Nat.mul_right_comm]
    _ ≤ tenTo (lastScale 52 exponent) * tenTo (-lastScale log exponent) * twoTo (-(exponent - 2)) :=
        Nat.mul_le_mul_right _ (tenTo_mul_le hle)
    _ = tenTo (lastScale 52 exponent) * twoTo (-(exponent - 2)) * tenTo (-lastScale log exponent) := by
        rw [Nat.mul_right_comm]
    _ < 2 * (twoTo (exponent - 2) * tenTo (-lastScale 52 exponent)) * tenTo (-lastScale log exponent) :=
        Nat.mul_lt_mul_of_pos_right hfull (tenTo_pos _)
    _ = 2 * (twoTo (exponent - 2) * tenTo (-lastScale log exponent)) * tenTo (-lastScale 52 exponent) := by
        simp only [Nat.mul_assoc, Nat.mul_comm (tenTo (-lastScale 52 exponent))]

/-- A scale that fits is not passed over in the search for digits. -/
theorem nearest_of_fits {exponent scale : Int} (h : Fits exponent scale) (mantissa : Nat) :
    (nearestMultiple? ((interval mantissa exponent).1 * (twoTo (exponent - 2) * tenTo (-scale)))
      ((interval mantissa exponent).2.1 * (twoTo (exponent - 2) * tenTo (-scale)))
      ((interval mantissa exponent).2.2 * (twoTo (exponent - 2) * tenTo (-scale)))
      (tenTo scale * twoTo (-(exponent - 2))) (mantissa % 2 = 0)).isSome = true := by
  have hlow : (interval mantissa exponent).2.1 ≤ (interval mantissa exponent).1 := Nat.sub_le _ _
  have hhigh : (interval mantissa exponent).2.2 = (interval mantissa exponent).1 + 2 := rfl
  refine nearestMultiple?_isSome _ (Nat.mul_le_mul_right _ hlow) (Nat.mul_pos (tenTo_pos scale) (twoTo_pos _)) ?_
  unfold Fits at h
  rw [hhigh, Nat.add_mul]
  omega

/-- The search for digits ends with some, if one of its scales fits. -/
theorem digitsFrom_pos {mantissa : Nat} {exponent : Int} : ∀ {fuel k : Nat} {scale : Int},
    k < fuel → Fits exponent (scale - k) → 0 < (digitsFrom mantissa exponent fuel scale).1 := by
  intro fuel
  induction fuel with
  | zero =>
    intro k scale hk
    omega
  | succ fuel ih =>
    intro k scale hk hfits
    rw [digitsFrom]
    dsimp only
    split
    · rename_i hsome
      exact nearestMultiple?_pos hsome
    · rename_i hnone
      cases k with
      | zero =>
        rw [Int.natCast_zero, Int.sub_zero] at hfits
        have hsome := nearest_of_fits hfits mantissa
        rw [hnone] at hsome
        cases hsome
      | succ k =>
        refine ih (k := k) (by omega) ?_
        rwa [show scale - 1 - (k : Int) = scale - ((k + 1 : Nat) : Int) by omega]

theorem shortest_pos {mantissa : Nat} {exponent : Int} (h : InRange mantissa exponent) :
    0 < (shortest mantissa exponent).1 := by
  obtain ⟨hmantissa, hmin, hmax⟩ := h
  have hlog : mantissa.log2 ≤ 52 := by
    rcases Nat.eq_zero_or_pos mantissa with rfl | hpos
    · decide
    · have := (Nat.log2_lt (by omega)).2 (show mantissa < 2 ^ 53 from hmantissa)
      omega
  refine digitsFrom_pos (k := 23) (by decide) ?_
  exact fits_lastScale hmin hmax hlog

/-! ## Their layout -/

theorem isUnsigned_positional {digits : List Char} (h : Leads digits) (point : Int) :
    isUnsigned (positional digits point) = true := by
  obtain ⟨⟨d, ds, rfl, hd⟩, hall⟩ := h
  have hzeros (n : Nat) : ∀ c ∈ List.replicate n '0', c.isDigit = true := by
    intro c hc
    rw [List.eq_of_mem_replicate hc]
    rfl
  unfold positional
  split
  · refine isUnsigned_point (show isWhole ['0'] = true from rfl) (isDigits_iff.2 ⟨by simp, fun c hc => ?_⟩)
    exact (List.mem_append.1 hc).elim (hzeros _ c) (hall c)
  · rename_i hpoint
    split
    · refine isUnsigned_point (Leads.isWhole ⟨⟨d, _, rfl, hd⟩, fun c hc => ?_⟩)
        (show isDigits ['0'] = true from rfl)
      exact (List.mem_append.1 hc).elim (hall c) (hzeros _ c)
    · rename_i hlength
      obtain ⟨n, hn⟩ : ∃ n, point.toNat = n + 1 := ⟨point.toNat - 1, by omega⟩
      rw [hn] at hlength ⊢
      refine isUnsigned_point (Leads.isWhole ⟨⟨d, ds.take n, rfl, hd⟩, fun c hc => ?_⟩)
        (isDigits_iff.2 ⟨?_, fun c hc => ?_⟩)
      · exact hall c (List.mem_of_mem_take hc)
      · rw [Ne, List.drop_eq_nil_iff]
        exact hlength
      · exact hall c (List.mem_of_mem_drop hc)

theorem isUnsigned_scientific {digits : List Char} (h : Leads digits) (exponent : Int) :
    isUnsigned (scientific digits exponent) = true := by
  obtain ⟨⟨d, ds, rfl, hd⟩, hall⟩ := h
  have hwhole : isWhole [d] = true := by
    refine Leads.isWhole ⟨⟨d, [], rfl, hd⟩, fun c hc => ?_⟩
    rw [List.mem_singleton.1 hc]
    exact hall d (by simp)
  have hexponent : isExponent ('e' :: (if exponent < 0 then '-' else '+') :: Nat.toDigits 10 exponent.natAbs) = true := by
    split <;> exact isDigits_toDigits _
  unfold scientific
  dsimp only
  rw [List.append_assoc]
  split
  · exact isUnsigned_append hwhole (by simp [EndsDigits]) hexponent
  · rename_i hlength
    refine isUnsigned_append hwhole (by simp [EndsDigits]) (isFraction_point ?_ (by simp [EndsDigits]) hexponent)
    refine isDigits_iff.2 ⟨?_, fun c hc => hall c (List.mem_of_mem_drop hc)⟩
    rintro rfl
    exact hlength rfl

/-- A double is written as a number. -/
theorem isNumber_text {negative : Bool} {mantissa : Nat} {exponent : Int} (h : InRange mantissa exponent) :
    isNumber (finite negative mantissa exponent h).text.toList = true := by
  rw [text, finiteText, String.toList_ofList]
  refine isNumber_of_isUnsigned negative ?_
  split
  · rfl
  · have hleads := leads_toDigits (shortest_pos h)
    unfold positiveText
    dsimp only
    split
    · exact isUnsigned_positional hleads _
    · exact isUnsigned_scientific hleads _

end Binary64

end EntityScript
