/-
# FlopOffice.Python.Decimal — `int` reads what `str` writes.

`int(str(i))` is `i` for every integer short enough to be shown, whatever its sign, and the text of a
number that is not negative passes `str.isdigit`.
-/
import FlopOffice.Python.Builtins

namespace FlopOffice.Python

/-! ## Digits -/

/-- A digit is one of ten characters. -/
theorem eq_cp_of_isDigit {c : CodePoint} (h : c.isDigit = true) : c ∈ py "0123456789" := by
  have hall : ∀ k, k < 10 → cp (Nat.digitChar k) ∈ py "0123456789" ∧
      (cp (Nat.digitChar k)).val = 0x30 + k := by decide
  simp only [CodePoint.isDigit, Bool.and_eq_true, decide_eq_true_eq] at h
  obtain ⟨hmem, hval⟩ := hall (c.val - 0x30) (by omega)
  have hsame : cp (Nat.digitChar (c.val - 0x30)) = c := by
    apply CodePoint.ext
    rw [hval]
    omega
  rwa [hsame] at hmem

theorem isSpace_of_isDigit {c : CodePoint} (h : c.isDigit = true) : isSpace c = false := by
  have hall : ∀ d ∈ py "0123456789", isSpace d = false := by decide
  exact hall c (eq_cp_of_isDigit h)

variable [PyRuntime]

/-- The value of a run of digits. -/
theorem digitsValue_map (chars : List Char) (hdigit : ∀ c ∈ chars, c.isDigit = true) (acc : Nat) :
    ∀ need, (chars = [] → need = false) →
      digitsValue acc need (chars.map cp) = some (Nat.ofDigitChars 10 chars acc) := by
  induction chars generalizing acc with
  | nil =>
    intro need hneed
    rw [List.map_nil, digitsValue, hneed rfl]
    rfl
  | cons c chars ih =>
    intro need _
    have hc : 0x30 ≤ c.toNat ∧ c.toNat ≤ 0x39 := by
      have hd := hdigit c List.mem_cons_self
      simp only [Char.isDigit, Bool.and_eq_true, decide_eq_true_eq, ge_iff_le,
        UInt32.le_iff_toNat_le] at hd
      exact hd
    have hunder : cp c ≠ cp '_' := by
      rw [Ne, cp_inj]
      rintro rfl
      revert hc
      decide
    have hvalue : PyRuntime.decimal (cp c) = some (c.toNat - 0x30) := by
      rw [PyRuntime.decimal_ascii _ (by rw [cp_val]; omega), cp_val, if_pos hc]
    rw [List.map_cons, digitsValue, if_neg hunder, hvalue]
    dsimp only
    rw [ih (fun d hd => hdigit d (List.mem_cons_of_mem _ hd)) _ false fun _ => rfl]
    refine congrArg some ?_
    rw [Nat.mul_comm]
    rfl

theorem digitsValue_decimalDigits (n : Nat) : digitsValue 0 true (decimalDigits n) = some n := by
  have hdigit : ∀ c ∈ Nat.toDigits 10 n, c.isDigit = true := fun c hc =>
    Nat.isDigit_of_mem_toDigits (by decide) (by decide) hc
  have hne : Nat.toDigits 10 n ≠ [] := by
    intro h0
    exact decimalDigits_ne_nil n (by rw [decimalDigits, h0]; rfl)
  rw [decimalDigits, digitsValue_map _ hdigit 0 true fun h => absurd h hne, Nat.ofDigitChars_ten_toDigits]

/-! ## There and back -/

/-- **`int(str(i))` is `i`.** -/
theorem parseInt_strInt {i : Int} {t : PyStr} (h : strInt i = .ok t) : parseInt t = .ok i := by
  have hlen : (decimalDigits i.natAbs).length ≤ maxStrDigits := by
    by_contra hno
    rw [strInt, if_neg hno] at h
    cases h
  obtain rfl := strInt_eq_ok h
  have hdigit : ∀ c ∈ decimalDigits i.natAbs, c.isDigit = true := fun c hc => isDigit_of_mem_decimalDigits hc
  have hsign : ∀ c ∈ decimalDigits i.natAbs, c ≠ cp '-' ∧ c ≠ cp '+' := by
    have hno : ∀ d ∈ py "0123456789", d ≠ cp '-' ∧ d ≠ cp '+' := by decide
    exact fun c hc => hno c (eq_cp_of_isDigit (hdigit c hc))
  have hspace : ∀ c ∈ (if i < 0 then [cp '-'] else []) ++ decimalDigits i.natAbs, isSpace c = false := by
    intro c hc
    rcases List.mem_append.mp hc with hc | hc
    · split at hc
      · rw [List.mem_singleton.mp hc]
        decide
      · cases hc
    · exact isSpace_of_isDigit (hdigit c hc)
  have hstrip := stripInt_eq_self hspace
  have hfilter : ((decimalDigits i.natAbs).filter fun c => c != cp '_').length ≤ maxStrDigits :=
    Nat.le_trans (List.length_filter_le _ _) hlen
  unfold parseInt
  rw [hstrip]
  by_cases hneg : i < 0
  · have hm : (([cp '-'] ++ decimalDigits i.natAbs).head? == some (cp '-')) = true := by
      simp
    have hdrop : ([cp '-'] ++ decimalDigits i.natAbs).drop 1 = decimalDigits i.natAbs := rfl
    simp only [if_pos hneg, hm, Bool.true_or, if_true, hdrop, digitsValue_decimalDigits, if_pos hfilter]
    rw [show -(i.natAbs : Int) = i by omega]
  · rw [if_neg hneg, List.nil_append]
    obtain ⟨c, rest, hcons⟩ := List.exists_cons_of_ne_nil (decimalDigits_ne_nil i.natAbs)
    obtain ⟨hminus, hplus⟩ := hsign c (hcons ▸ List.mem_cons_self)
    have hhead : (decimalDigits i.natAbs).head? = some c := by rw [hcons]; rfl
    have hm : ((decimalDigits i.natAbs).head? == some (cp '-')) = false := by
      rw [hhead]
      simpa using hminus
    have hp : ((decimalDigits i.natAbs).head? == some (cp '+')) = false := by
      rw [hhead]
      simpa using hplus
    simp only [hm, hp, Bool.or_self, Bool.false_eq_true, if_false, digitsValue_decimalDigits, if_pos hfilter]
    rw [show (i.natAbs : Int) = i by omega]

omit [PyRuntime] in
/-- Digits are digits. -/
theorem isdigit_decimalDigits [PyBuiltins] (n : Nat) : isdigit (decimalDigits n) = true := by
  unfold isdigit
  rw [Bool.and_eq_true, List.all_eq_true, Bool.not_eq_true', List.isEmpty_eq_false_iff]
  refine ⟨decimalDigits_ne_nil n, fun c hc => ?_⟩
  have hd := isDigit_of_mem_decimalDigits hc
  have hval : c.val < 0x80 := by
    simp only [CodePoint.isDigit, Bool.and_eq_true, decide_eq_true_eq] at hd
    omega
  rw [PyBuiltins.isdigit_ascii c hval, hd]

end FlopOffice.Python
