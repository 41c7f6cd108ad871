/-
# FlopOffice.Python.Float — the arithmetic of finite floats.

A finite float is a rational with 53 binary digits and no place below 2^-1074. An operation on floats is
the exact one, rounded to the nearest float and on a tie to the even one. The range has no upper end
here: what overflows is stated where it matters, at the conversion of an integer.
-/
import FlopOffice.Lib.Rounding
import FlopOffice.Python.Basic

namespace FlopOffice.Python

open FlopOffice.Lib FlopOffice.Lib.Rounding

/-- The nearest float. -/
def roundDouble (x : ℚ) : ℚ := roundBinary 53 (-1074) x

/-- The relative error of an operation. -/
def doubleError : ℚ := 2 ^ (-53 : ℤ)

/-- What a float may be off besides, where it is tiny. -/
def doubleTiny : ℚ := 2 ^ (-1074 - 1 : ℤ)

/-- The first power of two beyond the floats. -/
@[irreducible] def doubleBound : ℚ := 2 ^ (1024 : ℤ)

/-- `float(i)`. -/
def floatOfInt (i : Int) : Except Exc ℚ :=
  if doubleBound ≤ |roundDouble i| then .error ⟨.overflowError, []⟩ else .ok (roundDouble i)

theorem roundDouble_rounds : Rounds doubleError doubleTiny roundDouble := roundBinary_rounds

theorem roundDouble_intCast {i : Int} (h : i.natAbs < 2 ^ 53) : roundDouble i = i := by
  refine roundBinary_intCast ?_ (by decide)
  have hcast : ((i.natAbs : Nat) : Int) < ((2 ^ 53 : Nat) : Int) := Int.ofNat_lt.mpr h
  rw [Int.natCast_natAbs] at hcast
  exact hcast

theorem one_le_roundDouble {x : ℚ} (h : 1 ≤ x) : 1 ≤ roundDouble x :=
  zpow_le_roundBinary (k := 0) (by decide) (by decide) h

theorem pow_le_doubleBound : (2 : ℚ) ^ (53 : ℤ) ≤ doubleBound := by
  delta doubleBound
  exact zpow_le_zpow_right₀ one_le_two (by decide)

theorem floatOfInt_eq_ok {i : Int} {f : ℚ} (h : floatOfInt i = .ok f) : f = roundDouble i := by
  unfold floatOfInt at h
  split at h
  · cases h
  · cases h
    rfl

theorem floatOfInt_of_small {i : Int} (h : i.natAbs < 2 ^ 53) : floatOfInt i = .ok i := by
  have hsmall : |(i : ℚ)| < 2 ^ (53 : ℤ) := by
    have hcast : ((i.natAbs : Nat) : ℚ) < ((2 ^ 53 : Nat) : ℚ) := Nat.cast_lt.mpr h
    rw [Nat.cast_natAbs, Int.cast_abs, Nat.cast_pow, Nat.cast_ofNat] at hcast
    exact_mod_cast hcast
  rw [floatOfInt, roundDouble_intCast h, if_neg (not_le.mpr (hsmall.trans_le pow_le_doubleBound))]

/-- What the conversion does to an integer: a positive one is kept, or at least 2^53; another one is not
made positive. -/
theorem floatOfInt_cases {i : Int} {f : ℚ} (h : floatOfInt i = .ok f) :
    (0 < i → f = i ∨ 2 ^ 53 ≤ f) ∧ (i ≤ 0 → f ≤ 0) := by
  obtain rfl := floatOfInt_eq_ok h
  constructor
  · intro hpos
    rcases lt_or_ge i.natAbs (2 ^ 53) with hsmall | hlarge
    · exact Or.inl (roundDouble_intCast hsmall)
    · right
      have hle : (2 : ℚ) ^ (53 : ℤ) ≤ i := by
        have hint : (2 ^ 53 : Int) ≤ i := by omega
        exact_mod_cast hint
      have hround : (2 : ℚ) ^ (53 : ℤ) ≤ roundDouble i :=
        zpow_le_roundBinary (by decide) (by decide) hle
      exact_mod_cast hround
  · intro hneg
    exact roundBinary_nonpos (by exact_mod_cast hneg)

end FlopOffice.Python
