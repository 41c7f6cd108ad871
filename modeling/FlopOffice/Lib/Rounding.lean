/-
# FlopOffice.Lib.Rounding — rounding to a binary format.

A binary format has a number of digits `p` and a least exponent `emin`: a number is rounded to a whole
multiple of its last place, to the nearest one and on a tie to the even one (`roundBinary`). What a
computation needs to know of a rounding is only how far it may be off and that it keeps the sign
(`Rounds`): half a unit of the last place, which is a fraction of the number itself, or of the least
place where the number is tiny.
-/
import Mathlib.Data.Int.Log
import Mathlib.Data.Rat.Floor
import Mathlib.Tactic.Linarith
import Mathlib.Tactic.NormNum
import Mathlib.Tactic.Positivity
import Mathlib.Tactic.Ring

namespace FlopOffice.Lib.Rounding

/-! ## What a rounding promises -/

/-- A rounding that is off by a part `u` of the number, and by `tiny` at most besides. -/
structure Rounds (u tiny : ℚ) (fl : ℚ → ℚ) : Prop where
  error : ∀ x, |fl x - x| ≤ u * |x| + tiny
  nonneg : ∀ x, 0 ≤ x → 0 ≤ fl x

theorem rounds_id : Rounds 0 0 id where
  error x := by
    rw [id, sub_self, abs_zero, zero_mul, add_zero]
  nonneg _ hx := hx

theorem Rounds.le {u tiny : ℚ} {fl : ℚ → ℚ} (h : Rounds u tiny fl) {x : ℚ} (hx : 0 ≤ x) :
    fl x ≤ x * (1 + u) + tiny := by
  have herror := (abs_le.mp (h.error x)).2
  rw [abs_of_nonneg hx] at herror
  linarith

/-- **A sum with a product**, where the factor, the product and the sum are rounded. -/
theorem Rounds.add_mul_le {u tiny : ℚ} {fl : ℚ → ℚ} (h : Rounds u tiny fl) (hu : 0 ≤ u)
    (hfine : u ≤ 1 / 16) (htiny : 0 ≤ tiny) {t d q : ℚ} (ht : 0 ≤ t) (hd : 0 ≤ d) (hq : 0 ≤ q) :
    fl (t + fl (fl d * q)) ≤ t + d * q + 16 / 5 * u * (t + d * q) + 3 * tiny * (q + 1) := by
  have hone : 0 ≤ 1 + u := by linarith
  have hfactor := h.nonneg d hd
  have hproduct := h.nonneg _ (mul_nonneg hfactor hq)
  have hfactor_le : fl d * q * (1 + u) ≤ (d * (1 + u) + tiny) * q * (1 + u) :=
    mul_le_mul_of_nonneg_right (mul_le_mul_of_nonneg_right (h.le hd) hq) hone
  have hproduct_le : fl (fl d * q) * (1 + u) ≤ ((d * (1 + u) + tiny) * q * (1 + u) + tiny) * (1 + u) :=
    mul_le_mul_of_nonneg_right ((h.le (mul_nonneg hfactor hq)).trans (by linarith)) hone
  -- the powers of `1 + u` that the roundings bring
  have hsquare : (1 + u) ^ 2 ≤ 6 / 5 := by nlinarith
  have hcube : (1 + u) ^ 3 ≤ 1 + 16 / 5 * u := by nlinarith [mul_nonneg hu hu]
  have hmain : d * q * (1 + u) ^ 3 ≤ d * q * (1 + 16 / 5 * u) :=
    mul_le_mul_of_nonneg_left hcube (mul_nonneg hd hq)
  have htail : tiny * q * (1 + u) ^ 2 ≤ tiny * q * (6 / 5) :=
    mul_le_mul_of_nonneg_left hsquare (mul_nonneg htiny hq)
  have hlast : tiny * u ≤ tiny * (1 / 16) := mul_le_mul_of_nonneg_left hfine htiny
  have hsum : 0 ≤ t * u := mul_nonneg ht hu
  have hmore : 0 ≤ tiny * q := mul_nonneg htiny hq
  calc fl (t + fl (fl d * q)) ≤ (t + fl (fl d * q)) * (1 + u) + tiny := h.le (add_nonneg ht hproduct)
    _ ≤ t * (1 + u) + ((d * (1 + u) + tiny) * q * (1 + u) + tiny) * (1 + u) + tiny := by
      rw [add_mul]
      linarith
    _ = t + t * u + d * q * (1 + u) ^ 3 + tiny * q * (1 + u) ^ 2 + tiny * u + 2 * tiny := by ring
    _ ≤ t + d * q + 16 / 5 * u * (t + d * q) + 3 * tiny * (q + 1) := by linarith

/-! ## The nearest integer -/

/-- The nearest integer, on a tie the even one. -/
def roundEven (x : ℚ) : ℤ :=
  if x - ⌊x⌋ < 1 / 2 ∨ (x - ⌊x⌋ = 1 / 2 ∧ ⌊x⌋ % 2 = 0) then ⌊x⌋ else ⌊x⌋ + 1

theorem abs_roundEven_sub_le (x : ℚ) : |(roundEven x : ℚ) - x| ≤ 1 / 2 := by
  have hfloor := Int.floor_le x
  have hnext := Int.lt_floor_add_one x
  unfold roundEven
  split
  · rename_i hdown
    have hhalf : x - ⌊x⌋ ≤ 1 / 2 := hdown.elim le_of_lt fun htie => htie.1.le
    rw [abs_le]
    constructor <;> linarith
  · rename_i hup
    have hhalf : 1 / 2 ≤ x - ⌊x⌋ := not_lt.mp (not_or.mp hup).1
    rw [Int.cast_add, Int.cast_one, abs_le]
    constructor <;> linarith

@[simp] theorem roundEven_intCast (n : ℤ) : roundEven n = n := by
  unfold roundEven
  rw [Int.floor_intCast, sub_self, if_pos (Or.inl (by norm_num))]

/-- An integer below a number stays below its rounding. -/
theorem le_roundEven {n : ℤ} {x : ℚ} (h : (n : ℚ) ≤ x) : n ≤ roundEven x := by
  have hfloor : n ≤ ⌊x⌋ := Int.le_floor.mpr h
  unfold roundEven
  split
  · exact hfloor
  · omega

/-- An integer above a number stays above its rounding. -/
theorem roundEven_le {n : ℤ} {x : ℚ} (h : x ≤ n) : roundEven x ≤ n := by
  have hfloor : ⌊x⌋ ≤ n := (Int.floor_mono h).trans_eq (Int.floor_intCast n)
  unfold roundEven
  split
  · exact hfloor
  · rename_i hup
    rcases hfloor.lt_or_eq with hlt | heq
    · omega
    · -- `x` is between `n` and `n`
      have hzero : x - ⌊x⌋ ≤ 0 := sub_nonpos.mpr (heq ▸ h)
      exact absurd (Or.inl (lt_of_le_of_lt hzero (by norm_num))) hup

/-- What is nearest. -/
theorem roundEven_eq {n : ℤ} {x : ℚ} (h : |x - n| < 1 / 2) : roundEven x = n := by
  have hnear : |((roundEven x - n : ℤ) : ℚ)| < 1 := by
    have hsplit : ((roundEven x - n : ℤ) : ℚ) = (roundEven x - x) + (x - n) := by
      rw [Int.cast_sub]
      ring
    rw [hsplit]
    have hround := abs_roundEven_sub_le x
    have hsum := abs_add_le (roundEven x - x) (x - n)
    linarith
  have hzero : |roundEven x - n| < 1 := by exact_mod_cast hnear
  exact sub_eq_zero.mp (Int.abs_lt_one_iff.mp hzero)

/-! ## The nearest number of a format -/

variable (p : ℕ) (emin : ℤ)

/-- The exponent of the last place of a number. -/
def lastPlace (x : ℚ) : ℤ := max (Int.log 2 |x| - p + 1) emin

/-- **The nearest number** with `p` binary digits and no place below `emin`, on a tie the even one. -/
def roundBinary (x : ℚ) : ℚ := roundEven (x / 2 ^ lastPlace p emin x) * 2 ^ lastPlace p emin x

variable {p emin}

theorem two_zpow_pos (e : ℤ) : (0 : ℚ) < 2 ^ e := zpow_pos (by norm_num) e

/-- The last place of a number that is known up to a factor of two. -/
theorem lastPlace_eq {x : ℚ} {k : ℤ} (hk : (2 : ℚ) ^ k ≤ |x|) (hx : |x| < 2 ^ (k + 1)) :
    lastPlace p emin x = max (k - p + 1) emin := by
  have hpos : 0 < |x| := lt_of_lt_of_le (two_zpow_pos k) hk
  have hlog : Int.log 2 |x| = k := by
    refine le_antisymm ?_ ((Int.zpow_le_iff_le_log one_lt_two hpos).mp hk)
    exact Int.lt_add_one_iff.mp ((Int.lt_zpow_iff_log_lt one_lt_two hpos).mp hx)
  unfold lastPlace
  rw [hlog]

/-- The nearest multiple of the last place. -/
theorem roundBinary_eq {x : ℚ} {e n : ℤ} (h : lastPlace p emin x = e) (hn : |x / 2 ^ e - n| < 1 / 2) :
    roundBinary p emin x = n * 2 ^ e := by
  unfold roundBinary
  rw [h, roundEven_eq hn]

/-- A whole multiple of the last place is a number of the format. -/
theorem roundBinary_of_mul {x : ℚ} {n : ℤ} (h : x = n * 2 ^ lastPlace p emin x) :
    roundBinary p emin x = x := by
  have hdiv : x / 2 ^ lastPlace p emin x = n := by
    rw [div_eq_iff (two_zpow_pos _).ne']
    exact h
  unfold roundBinary
  rw [hdiv, roundEven_intCast]
  exact h.symm

/-- A rounding is off by half of the last place. -/
theorem abs_roundBinary_sub_le (x : ℚ) :
    |roundBinary p emin x - x| ≤ 2 ^ lastPlace p emin x / 2 := by
  have hpos := two_zpow_pos (lastPlace p emin x)
  have hfactor : roundBinary p emin x - x =
      (roundEven (x / 2 ^ lastPlace p emin x) - x / 2 ^ lastPlace p emin x) *
        2 ^ lastPlace p emin x := by
    unfold roundBinary
    rw [sub_mul, div_mul_cancel₀ x hpos.ne']
  rw [hfactor, abs_mul, abs_of_pos hpos]
  calc _ ≤ 1 / 2 * (2 : ℚ) ^ lastPlace p emin x :=
        mul_le_mul_of_nonneg_right (abs_roundEven_sub_le _) hpos.le
    _ = 2 ^ lastPlace p emin x / 2 := by ring

/-- **The error of a binary format**: a part `2 ^ -p` of the number, or half of the least place. -/
theorem roundBinary_rounds : Rounds (2 ^ (-p : ℤ)) (2 ^ (emin - 1)) (roundBinary p emin) where
  error x := by
    rcases eq_or_ne x 0 with rfl | hne
    · have hzero : roundBinary p emin 0 = 0 := by
        unfold roundBinary
        rw [zero_div, show roundEven 0 = 0 from roundEven_intCast 0, Int.cast_zero, zero_mul]
      rw [hzero, sub_zero, abs_zero, mul_zero, zero_add]
      exact (two_zpow_pos _).le
    have hlog : (2 : ℚ) ^ Int.log 2 |x| ≤ |x| := Int.zpow_log_le_self one_lt_two (abs_pos.mpr hne)
    have hpart := mul_le_mul_of_nonneg_left hlog (two_zpow_pos (-p)).le
    have htiny := two_zpow_pos (emin - 1)
    refine (abs_roundBinary_sub_le x).trans ?_
    have hhalf : ∀ e : ℤ, (2 : ℚ) ^ e / 2 = 2 ^ (e - 1) := fun e =>
      (zpow_sub_one₀ two_ne_zero e).symm
    rw [hhalf]
    unfold lastPlace
    rcases max_choice (Int.log 2 |x| - p + 1) emin with hmax | hmax
    · rw [hmax, show Int.log 2 |x| - p + 1 - 1 = -p + Int.log 2 |x| by ring,
        zpow_add₀ two_ne_zero]
      linarith
    · rw [hmax]
      have hpos : (0 : ℚ) ≤ 2 ^ (-p : ℤ) * |x| := mul_nonneg (two_zpow_pos _).le (abs_nonneg x)
      linarith
  nonneg x hx := by
    have hnum : 0 ≤ roundEven (x / 2 ^ lastPlace p emin x) :=
      le_roundEven (by rw [Int.cast_zero]; exact div_nonneg hx (two_zpow_pos _).le)
    exact mul_nonneg (by exact_mod_cast hnum) (two_zpow_pos _).le

/-- A power of two below a number stays below its rounding. -/
theorem zpow_le_roundBinary {x : ℚ} {k : ℤ} (hp : 0 < p) (hk : emin ≤ k) (h : (2 : ℚ) ^ k ≤ x) :
    2 ^ k ≤ roundBinary p emin x := by
  have hx : 0 < x := lt_of_lt_of_le (two_zpow_pos k) h
  have habs : |x| = x := abs_of_pos hx
  have hlog : (2 : ℚ) ^ Int.log 2 |x| ≤ x := by
    rw [habs]
    exact Int.zpow_log_le_self one_lt_two hx
  have hle : k ≤ Int.log 2 |x| := by
    rw [habs]
    exact (Int.zpow_le_iff_le_log one_lt_two hx).mp h
  -- the leading digit is a whole multiple of the last place
  have hlead : ∀ e : ℤ, e ≤ Int.log 2 |x| →
      (2 : ℚ) ^ Int.log 2 |x| ≤ roundEven (x / 2 ^ e) * 2 ^ e := by
    intro e he
    obtain ⟨n, hn⟩ := Int.eq_ofNat_of_zero_le (sub_nonneg.mpr he)
    have hsplit : (2 : ℚ) ^ Int.log 2 |x| = ((2 ^ n : ℤ) : ℚ) * 2 ^ e := by
      rw [show Int.log 2 |x| = n + e by omega, zpow_add₀ two_ne_zero, zpow_natCast, Int.cast_pow,
        Int.cast_ofNat]
    have hnum : (2 ^ n : ℤ) ≤ roundEven (x / 2 ^ e) := by
      refine le_roundEven ((le_div_iff₀ (two_zpow_pos e)).mpr ?_)
      rw [← hsplit]
      exact hlog
    rw [hsplit]
    exact mul_le_mul_of_nonneg_right (by exact_mod_cast hnum) (two_zpow_pos e).le
  have hplace : lastPlace p emin x ≤ Int.log 2 |x| := max_le (by omega) (hk.trans hle)
  calc (2 : ℚ) ^ k ≤ 2 ^ Int.log 2 |x| := zpow_le_zpow_right₀ one_le_two hle
    _ ≤ roundBinary p emin x := hlead _ hplace

/-- A rounding makes nothing positive. -/
theorem roundBinary_nonpos {x : ℚ} (h : x ≤ 0) : roundBinary p emin x ≤ 0 := by
  have hnum : roundEven (x / 2 ^ lastPlace p emin x) ≤ 0 :=
    roundEven_le (by rw [Int.cast_zero]; exact div_nonpos_of_nonpos_of_nonneg h (two_zpow_pos _).le)
  exact mul_nonpos_of_nonpos_of_nonneg (by exact_mod_cast hnum) (two_zpow_pos _).le

/-- **A whole number of at most `p` digits is kept.** -/
theorem roundBinary_intCast {n : ℤ} (hn : |n| < 2 ^ p) (hemin : emin ≤ 0) :
    roundBinary p emin n = n := by
  rcases eq_or_ne n 0 with rfl | hne
  · unfold roundBinary
    rw [Int.cast_zero, zero_div, show roundEven 0 = 0 from roundEven_intCast 0, Int.cast_zero, zero_mul]
  have hpos : (0 : ℚ) < |(n : ℚ)| := abs_pos.mpr (by exact_mod_cast hne)
  have hlog : Int.log 2 |(n : ℚ)| < p := by
    refine (Int.lt_zpow_iff_log_lt one_lt_two hpos).mp ?_
    rw [zpow_natCast]
    exact_mod_cast hn
  have hplace : lastPlace p emin n ≤ 0 := max_le (by omega) hemin
  obtain ⟨m, hm⟩ := Int.eq_ofNat_of_zero_le (neg_nonneg.mpr hplace)
  refine roundBinary_of_mul (n := n * 2 ^ m) ?_
  rw [show lastPlace p emin n = -(m : ℤ) by omega, Int.cast_mul, Int.cast_pow, Int.cast_ofNat,
    zpow_neg, zpow_natCast, mul_assoc, mul_inv_cancel₀ (pow_ne_zero m two_ne_zero), mul_one]

end FlopOffice.Lib.Rounding
