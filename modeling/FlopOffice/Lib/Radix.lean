/-
# FlopOffice.Lib.Radix — digit lists, most significant digit first.

A digit list is a number of leading zeros and a number. `recode` keeps the first and rewrites the
second in another base, and two recodings between the same bases undo each other (`recode_recode`):
base58 and its like are nothing else, up to the letters.
-/
import Mathlib.Data.List.TakeWhile
import Mathlib.Data.Nat.Digits.Lemmas

namespace FlopOffice.Lib.Radix

/-- The number a digit list stands for. -/
def value (b : Nat) (ds : List Nat) : Nat := ds.foldl (fun n d => n * b + d) 0

/-- The digits of a number, without leading zeros; none for zero. -/
def minimal (b n : Nat) : List Nat := (Nat.digits b n).reverse

/-- The leading zeros as they are, the rest in another base. -/
def recode (b c : Nat) (ds : List Nat) : List Nat :=
  ds.takeWhile (fun d => d == 0) ++ minimal c (value b ds)

variable {b c n : Nat} {ds : List Nat}

theorem value_eq_ofDigits (b : Nat) (ds : List Nat) : value b ds = Nat.ofDigits b ds.reverse := by
  rw [Nat.ofDigits_eq_foldr, List.foldr_reverse, value]
  congr 1
  funext n d
  rw [Nat.cast_id, Nat.mul_comm, Nat.add_comm]

theorem value_minimal (b n : Nat) : value b (minimal b n) = n := by
  rw [value_eq_ofDigits, minimal, List.reverse_reverse, Nat.ofDigits_digits]

/-- Leading zeros do not count. -/
theorem value_append_of_zeros {zs : List Nat} (hz : ∀ z ∈ zs, z = 0) (ds : List Nat) :
    value b (zs ++ ds) = value b ds := by
  have h0 : zs.foldl (fun n d => n * b + d) 0 = 0 := by
    induction zs with
    | nil => rfl
    | cons z zs ih =>
      rw [List.foldl_cons, hz z List.mem_cons_self, Nat.zero_mul, Nat.zero_add]
      exact ih fun y hy => hz y (List.mem_cons_of_mem _ hy)
  rw [value, List.foldl_append, h0, value]

theorem zero_of_mem_takeWhile {ds : List Nat} : ∀ z ∈ ds.takeWhile (fun d => d == 0), z = 0 := by
  intro z hz
  simpa using List.mem_takeWhile_imp hz

theorem lt_of_mem_minimal (hb : 1 < b) {d : Nat} (h : d ∈ minimal b n) : d < b :=
  Nat.digits_lt_base hb (List.mem_reverse.mp h)

/-- A minimal digit list does not start with a zero. -/
theorem head?_minimal_ne (b n : Nat) : (minimal b n).head? ≠ some 0 := by
  intro h
  rw [minimal, List.head?_reverse] at h
  have hne : Nat.digits b n ≠ [] := by
    rintro h0
    rw [h0] at h
    cases h
  have hn : n ≠ 0 := by
    rintro rfl
    exact hne (Nat.digits_zero b)
  rw [List.getLast?_eq_getLast_of_ne_nil hne] at h
  exact Nat.getLast_digit_ne_zero b hn (Option.some.inj h)

/-- A digit list without its leading zeros is minimal. -/
theorem minimal_value (hb : 1 < b) (h : ∀ d ∈ ds, d < b) :
    minimal b (value b ds) = ds.dropWhile fun d => d == 0 := by
  have hvalue : value b ds = value b (ds.dropWhile fun d => d == 0) := by
    conv_lhs => rw [← List.takeWhile_append_dropWhile (p := fun d => d == 0) (l := ds)]
    exact value_append_of_zeros zero_of_mem_takeWhile _
  rw [hvalue, minimal, value_eq_ofDigits, Nat.digits_ofDigits b hb, List.reverse_reverse]
  · intro d hd
    exact h d ((List.dropWhile_sublist _).subset (List.mem_reverse.mp hd))
  · intro hne
    rw [List.getLast_reverse]
    have hhead := List.head_dropWhile_not (fun d : Nat => d == 0) (l := ds)
      (fun h0 => hne (by rw [h0, List.reverse_nil]))
    simpa using hhead

/-- Recoding keeps the leading zeros and nothing but them in front. -/
theorem takeWhile_recode (b c : Nat) (ds : List Nat) :
    (recode b c ds).takeWhile (fun d => d == 0) = ds.takeWhile fun d => d == 0 := by
  have hrest : (minimal c (value b ds)).takeWhile (fun d => d == 0) = [] := by
    cases hm : minimal c (value b ds) with
    | nil => rfl
    | cons d rest =>
      have hd : d ≠ 0 := by
        rintro rfl
        exact head?_minimal_ne c (value b ds) (by rw [hm]; rfl)
      rw [List.takeWhile_cons_of_neg (by simpa using hd)]
  have hzeros : ∀ d ∈ ds.takeWhile (fun d => d == 0), (d == 0) = true := fun d hd => by
    rw [zero_of_mem_takeWhile d hd, beq_self_eq_true]
  rw [recode, List.takeWhile_append_of_pos hzeros, hrest, List.append_nil]

theorem value_recode (b c : Nat) (ds : List Nat) : value c (recode b c ds) = value b ds := by
  rw [recode, value_append_of_zeros zero_of_mem_takeWhile, value_minimal]

/-- **Recoding is undone by recoding back.** -/
theorem recode_recode (hb : 1 < b) (h : ∀ d ∈ ds, d < b) : recode c b (recode b c ds) = ds := by
  rw [recode, takeWhile_recode, value_recode, minimal_value hb h, List.takeWhile_append_dropWhile]

theorem lt_of_mem_recode (hc : 1 < c) {d : Nat} (h : d ∈ recode b c ds) : d < c := by
  rcases List.mem_append.mp h with h | h
  · rw [zero_of_mem_takeWhile d h]
    omega
  · exact lt_of_mem_minimal hc h

end FlopOffice.Lib.Radix
