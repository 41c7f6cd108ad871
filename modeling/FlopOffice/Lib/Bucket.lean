/-
# FlopOffice.Lib.Bucket — what a token bucket grants in a window.

A bucket holds up to `capacity` tokens, gains `rate` of them in a unit of time and gives some away with
every grant. `Meters` relates its level to the log of the grants so far: what was granted from `a` on, and
what is left, is no more than a full bucket and the refill since `a`. A bucket that computes its level with
roundings may be off in its own favour; a second log says by how much and when (`gains`). From the level
the bound goes over to every window of the past, which needs no bucket any more (`Paced`).
-/
import Mathlib.Algebra.Order.Field.Basic
import Mathlib.Data.Finset.Max
import Mathlib.Data.List.Basic
import Mathlib.Tactic.Linarith
import Mathlib.Tactic.Positivity
import Mathlib.Tactic.Ring

namespace FlopOffice.Lib.Bucket

variable {K : Type} [LinearOrder K]

/-! ## Windows -/

/-- How many of the times lie between `a` and `e`. -/
def between (times : List K) (a e : K) : Nat := times.countP fun t => a ≤ t ∧ t ≤ e

/-- How many of the times lie in the half-open window from `a` to `b`. -/
def inWindow (times : List K) (a b : K) : Nat := times.countP fun t => a ≤ t ∧ t < b

theorem between_cons (t : K) (times : List K) (a e : K) :
    between (t :: times) a e = between times a e + if a ≤ t ∧ t ≤ e then 1 else 0 := by
  unfold between
  rw [List.countP_cons]
  exact congrArg _ (if_congr decide_eq_true_iff rfl rfl)

/-- A half-open window that is not empty is spanned by two of the times in it. -/
theorem exists_span {times : List K} {a b : K} (h : inWindow times a b ≠ 0) :
    ∃ t ∈ times, ∃ t' ∈ times, a ≤ t ∧ t ≤ t' ∧ t' < b ∧ inWindow times a b = between times t t' := by
  obtain ⟨t₀, ht₀, hin⟩ := List.countP_pos_iff.mp (Nat.pos_of_ne_zero h)
  let inside := times.toFinset.filter fun t => a ≤ t ∧ t < b
  have hmem : ∀ t, t ∈ inside ↔ t ∈ times ∧ a ≤ t ∧ t < b := fun t => by
    rw [Finset.mem_filter, List.mem_toFinset]
  have hsome : inside.Nonempty := ⟨t₀, (hmem t₀).mpr ⟨ht₀, of_decide_eq_true hin⟩⟩
  obtain ⟨t, ht, hleast⟩ := Finset.exists_min_image inside id hsome
  obtain ⟨t', ht', hlast⟩ := Finset.exists_max_image inside id hsome
  obtain ⟨htimes, hat, -⟩ := (hmem t).mp ht
  obtain ⟨htimes', -, htb'⟩ := (hmem t').mp ht'
  refine ⟨t, htimes, t', htimes', hat, hleast t' ht', htb', List.countP_congr fun x hx => ?_⟩
  rw [decide_eq_true_iff, decide_eq_true_iff]
  constructor
  · intro hx'
    exact ⟨hleast x ((hmem x).mpr ⟨hx, hx'⟩), hlast x ((hmem x).mpr ⟨hx, hx'⟩)⟩
  · rintro ⟨htx, hxt⟩
    exact ⟨hat.trans htx, lt_of_le_of_lt hxt htb'⟩

/-! ## Pace -/

variable [Field K]

/-- What was granted between `a` and `e`, from a log of the times of the grants and their amounts. -/
def granted (log : List (K × K)) (a e : K) : K :=
  (log.map fun g => if a ≤ g.1 ∧ g.1 ≤ e then g.2 else 0).sum

variable (capacity rate : K) (gains : List (K × K))

/-- No stretch of time sees more grants of one token than a full bucket, its refill and its gains. -/
def Paced (times : List K) : Prop :=
  ∀ a e, a ≤ e → (between times a e : K) ≤ capacity + rate * (e - a) + granted gains a e

/-- How the level of a bucket stands to the log of its grants. -/
structure Meters (tokens updated : K) (log : List (K × K)) : Prop where
  past : ∀ g ∈ log, g.1 ≤ updated
  amounts : ∀ g ∈ log, 0 ≤ g.2
  gained : ∀ g ∈ gains, 0 ≤ g.2
  nonneg : 0 ≤ tokens
  since : ∀ a ≤ updated, granted log a updated + tokens ≤
    capacity + rate * (updated - a) + granted gains a updated
  paced : ∀ a e, a ≤ e → granted log a e ≤ capacity + rate * (e - a) + granted gains a e

theorem granted_append (log log' : List (K × K)) (a e : K) :
    granted (log ++ log') a e = granted log a e + granted log' a e := by
  rw [granted, List.map_append, List.sum_append]
  rfl

theorem granted_singleton (t amount a e : K) :
    granted [(t, amount)] a e = if a ≤ t ∧ t ≤ e then amount else 0 :=
  add_zero _

theorem granted_congr {log : List (K × K)} {a e a' e' : K}
    (h : ∀ g ∈ log, (a ≤ g.1 ∧ g.1 ≤ e) ↔ (a' ≤ g.1 ∧ g.1 ≤ e')) :
    granted log a e = granted log a' e' := by
  refine congrArg List.sum (List.map_congr_left fun g hg => ?_)
  exact if_congr (h g hg) rfl rfl

theorem granted_eq_zero {log : List (K × K)} {a e : K} (h : ∀ g ∈ log, ¬ (a ≤ g.1 ∧ g.1 ≤ e)) :
    granted log a e = 0 := by
  refine List.sum_eq_zero fun x hx => ?_
  obtain ⟨g, hg, rfl⟩ := List.mem_map.mp hx
  exact if_neg (h g hg)

/-- Equal amounts are counted. -/
theorem granted_map_const (times : List K) (amount a e : K) :
    granted (times.map fun t => (t, amount)) a e = between times a e * amount := by
  induction times with
  | nil => exact (zero_mul amount).symm.trans (congrArg (· * amount) Nat.cast_zero.symm)
  | cons t times ih =>
    have hcons : granted ((t :: times).map fun t => (t, amount)) a e =
        (if a ≤ t ∧ t ≤ e then amount else 0) + granted (times.map fun t => (t, amount)) a e := rfl
    rw [hcons, ih, between_cons, Nat.cast_add, Nat.cast_ite, Nat.cast_one, Nat.cast_zero, add_mul,
      ite_mul, one_mul, zero_mul, add_comm]

variable [IsStrictOrderedRing K]

theorem granted_nonneg {log : List (K × K)} (h : ∀ g ∈ log, 0 ≤ g.2) (a e : K) :
    0 ≤ granted log a e := by
  refine List.sum_nonneg fun x hx => ?_
  obtain ⟨g, hg, rfl⟩ := List.mem_map.mp hx
  split
  · exact h g hg
  · exact le_refl 0

/-- A longer stretch of time sees more. -/
theorem granted_mono {log : List (K × K)} (h : ∀ g ∈ log, 0 ≤ g.2) (a : K) {e e' : K} (hle : e ≤ e') :
    granted log a e ≤ granted log a e' := by
  refine List.sum_le_sum fun g hg => ?_
  split
  · rename_i hin
    rw [if_pos ⟨hin.1, hin.2.trans hle⟩]
  · split
    · exact h g hg
    · exact le_refl 0

variable {capacity rate gains}

/-- **A half-open window** of a bucket without gains sees less. -/
theorem Paced.inWindow_lt {times : List K} (h : Paced capacity rate [] times) (hrate : 0 < rate)
    {a length : K} (hlength : 0 < length) :
    (inWindow times a (a + length) : K) < capacity + rate * length := by
  have hbound : ∀ t t', t ≤ t' → (between times t t' : K) ≤ capacity + rate * (t' - t) :=
    fun t t' hle => (h t t' hle).trans (le_of_eq (add_zero _))
  by_cases hnone : inWindow times a (a + length) = 0
  · have hcapacity := (Nat.cast_nonneg _).trans (hbound a a (le_refl a))
    have hpos := mul_pos hrate hlength
    rw [hnone, Nat.cast_zero]
    rw [sub_self, mul_zero, add_zero] at hcapacity
    linarith
  · obtain ⟨t, -, t', -, hat, htt', htb, hcount⟩ := exists_span hnone
    have hspan : rate * (t' - t) < rate * length := mul_lt_mul_of_pos_left (by linarith) hrate
    have hle := hbound t t' htt'
    rw [hcount]
    linarith

theorem paced_nil (hcapacity : 0 ≤ capacity) (hrate : 0 ≤ rate) (hgains : ∀ g ∈ gains, 0 ≤ g.2) :
    Paced capacity rate gains [] := by
  intro a e hae
  have hpos : 0 ≤ rate * (e - a) := mul_nonneg hrate (sub_nonneg.mpr hae)
  have hgain := granted_nonneg hgains a e
  show ((0 : Nat) : K) ≤ _
  rw [Nat.cast_zero]
  linarith

/-- More gains leave more room. -/
theorem Paced.mono {times : List K} (h : Paced capacity rate gains times) {gains' : List (K × K)}
    (hle : ∀ a e, granted gains a e ≤ granted gains' a e) : Paced capacity rate gains' times :=
  fun a e hae => (h a e hae).trans (add_le_add_right (hle a e) _)

/-! ## What a bucket does -/

/-- A full bucket that has granted nothing. -/
theorem Meters.full (hcapacity : 0 ≤ capacity) (hrate : 0 ≤ rate) (hgains : ∀ g ∈ gains, 0 ≤ g.2)
    (now : K) : Meters capacity rate gains capacity now [] where
  past := nofun
  amounts := nofun
  gained := hgains
  nonneg := hcapacity
  since a ha := by
    have hpos : 0 ≤ rate * (now - a) := mul_nonneg hrate (sub_nonneg.mpr ha)
    have hgain := granted_nonneg hgains a now
    show 0 + capacity ≤ _
    linarith
  paced a e hae := by
    have hpos : 0 ≤ rate * (e - a) := mul_nonneg hrate (sub_nonneg.mpr hae)
    have hgain := granted_nonneg hgains a e
    show 0 ≤ _
    linarith

variable {tokens updated : K} {log : List (K × K)}

/-- Without gains the level is within the capacity. -/
theorem Meters.le_capacity (h : Meters capacity rate [] tokens updated log) : tokens ≤ capacity := by
  have hsince := h.since updated (le_refl updated)
  have hpos := granted_nonneg h.amounts updated updated
  have hnone : granted ([] : List (K × K)) updated updated = 0 := rfl
  rw [sub_self, mul_zero, hnone] at hsince
  linarith

/-- More gains leave more room. -/
theorem Meters.mono (h : Meters capacity rate gains tokens updated log) {gains' : List (K × K)}
    (hgained : ∀ g ∈ gains', 0 ≤ g.2) (hle : ∀ a e, granted gains a e ≤ granted gains' a e) :
    Meters capacity rate gains' tokens updated log where
  past := h.past
  amounts := h.amounts
  gained := hgained
  nonneg := h.nonneg
  since a ha := (h.since a ha).trans (add_le_add_right (hle a updated) _)
  paced a e hae := (h.paced a e hae).trans (add_le_add_right (hle a e) _)

/-- A gain of nothing is none. -/
theorem Meters.of_zero {t : K} (h : Meters capacity rate (gains ++ [(t, 0)]) tokens updated log) :
    Meters capacity rate gains tokens updated log := by
  refine h.mono (fun g hg => h.gained g (List.mem_append_left _ hg)) fun a e => ?_
  rw [granted_append, granted_singleton, ite_self, add_zero]

/-- Grants that are not counted. -/
theorem Meters.of_append {log' : List (K × K)}
    (h : Meters capacity rate gains tokens updated (log ++ log')) :
    Meters capacity rate gains tokens updated log := by
  have hpos : ∀ a e, 0 ≤ granted log' a e :=
    granted_nonneg fun g hg => h.amounts g (List.mem_append_right _ hg)
  refine ⟨fun g hg => h.past g (List.mem_append_left _ hg),
    fun g hg => h.amounts g (List.mem_append_left _ hg), h.gained, h.nonneg, fun a ha => ?_,
    fun a e hae => ?_⟩
  · have hall := h.since a ha
    have hmore := hpos a updated
    rw [granted_append] at hall
    linarith
  · have hall := h.paced a e hae
    have hmore := hpos a e
    rw [granted_append] at hall
    linarith

/-- **Refilling** adds no more than the time that has passed allows, and the gain. -/
theorem Meters.refill (h : Meters capacity rate gains tokens updated log) (hrate : 0 ≤ rate)
    {now level gain : K} (hnow : updated ≤ now) (hgain : 0 ≤ gain) (hlevel : 0 ≤ level)
    (hfull : level ≤ capacity) (hle : level ≤ tokens + (now - updated) * rate + gain) :
    Meters capacity rate (gains ++ [(now, gain)]) level now log where
  past g hg := (h.past g hg).trans hnow
  amounts := h.amounts
  gained g hg := by
    rcases List.mem_append.mp hg with hg | hg
    · exact h.gained g hg
    · rw [List.mem_singleton.mp hg]
      exact hgain
  nonneg := hlevel
  since a ha := by
    have hsame : granted log a now = granted log a updated := granted_congr fun g hg =>
      and_congr_right fun _ => ⟨fun _ => h.past g hg, fun hle => hle.trans hnow⟩
    have hgains : granted gains a updated ≤ granted gains a now := granted_mono h.gained a hnow
    rw [granted_append, granted_singleton, if_pos ⟨ha, le_refl now⟩]
    rcases le_or_gt a updated with hold | hnew
    · have hsince := h.since a hold
      have hsplit : rate * (now - a) = rate * (updated - a) + (now - updated) * rate := by ring
      rw [hsame, hsplit]
      linarith
    · -- nothing is granted after the last change of the level
      have hzero : granted log a now = 0 := granted_eq_zero fun g hg hin =>
        absurd (hin.1.trans (h.past g hg)) (not_le.mpr hnew)
      have hpos : 0 ≤ rate * (now - a) := mul_nonneg hrate (sub_nonneg.mpr ha)
      have hgained := granted_nonneg h.gained a now
      rw [hzero]
      linarith
  paced a e hae := by
    have hold := h.paced a e hae
    have hpos : 0 ≤ granted [(now, gain)] a e := granted_nonneg (fun g hg => by
      rw [List.mem_singleton.mp hg]
      exact hgain) a e
    rw [granted_append]
    linarith

/-- **A grant** takes the amount that it is logged with, but for the gain. -/
theorem Meters.take (h : Meters capacity rate gains tokens updated log) (hrate : 0 ≤ rate)
    {amount level gain : K} (hamount : 0 ≤ amount) (hgain : 0 ≤ gain) (hlevel : 0 ≤ level)
    (hle : level + amount ≤ tokens + gain) :
    Meters capacity rate (gains ++ [(updated, gain)]) level updated (log ++ [(updated, amount)]) := by
  have hpast : ∀ g ∈ log ++ [(updated, amount)], g.1 ≤ updated := fun g hg => by
    rcases List.mem_append.mp hg with hg | hg
    · exact h.past g hg
    · rw [List.mem_singleton.mp hg]
  have hgained : ∀ g ∈ gains ++ [(updated, gain)], 0 ≤ g.2 := fun g hg => by
    rcases List.mem_append.mp hg with hg | hg
    · exact h.gained g hg
    · rw [List.mem_singleton.mp hg]
      exact hgain
  have hsince : ∀ a ≤ updated, granted (log ++ [(updated, amount)]) a updated + level ≤
      capacity + rate * (updated - a) + granted (gains ++ [(updated, gain)]) a updated := by
    intro a ha
    have hold := h.since a ha
    rw [granted_append, granted_append, granted_singleton, granted_singleton,
      if_pos ⟨ha, le_refl updated⟩, if_pos ⟨ha, le_refl updated⟩]
    linarith
  refine ⟨hpast, fun g hg => ?_, hgained, hlevel, hsince, fun a e hae => ?_⟩
  · rcases List.mem_append.mp hg with hg | hg
    · exact h.amounts g hg
    · rw [List.mem_singleton.mp hg]
      exact hamount
  rcases le_or_gt a updated with hin | hout
  · rcases lt_or_ge e updated with hbefore | hafter
    · -- the window ends before the grant
      have hbound := h.paced a e hae
      rw [granted_append, granted_append, granted_singleton, granted_singleton,
        if_neg fun hboth => absurd hboth.2 (not_le.mpr hbefore),
        if_neg fun hboth => absurd hboth.2 (not_le.mpr hbefore), add_zero, add_zero]
      exact hbound
    · have hsame : granted (log ++ [(updated, amount)]) a e =
          granted (log ++ [(updated, amount)]) a updated := granted_congr fun g hg =>
        and_congr_right fun _ => ⟨fun _ => hpast g hg, fun hle => hle.trans hafter⟩
      have hbound := hsince a hin
      have hgains := granted_mono hgained a hafter
      have hmore : rate * (updated - a) ≤ rate * (e - a) :=
        mul_le_mul_of_nonneg_left (by linarith) hrate
      rw [hsame]
      linarith
  · have hnone : granted (log ++ [(updated, amount)]) a e = 0 := granted_eq_zero fun g hg hin =>
      absurd (hin.1.trans (hpast g hg)) (not_le.mpr hout)
    have hbound := h.paced a e hae
    have hold := granted_nonneg h.amounts a e
    rw [hnone, granted_append, granted_singleton, if_neg fun hboth => absurd hboth.1 (not_le.mpr hout)]
    linarith

/-! ## Grants of one token -/

omit [IsStrictOrderedRing K] in
/-- Grants of one token each are paced. -/
theorem Meters.paced_unit {times : List K}
    (h : Meters capacity rate gains tokens updated (times.map fun t => (t, 1))) :
    Paced capacity rate gains times := by
  intro a e hae
  have hbound := h.paced a e hae
  rw [granted_map_const, mul_one] at hbound
  exact hbound

/-- The grants of one token in a log. -/
def singles (log : List (K × K)) : List K := (log.filter fun g => g.2 = 1).map Prod.fst

/-- Grants of one token are paced, whatever else was granted. -/
theorem Meters.paced_singles (h : Meters capacity rate gains tokens updated log) :
    Paced capacity rate gains (singles log) := by
  intro a e hae
  refine le_trans ?_ (h.paced a e hae)
  have hamounts := h.amounts
  clear h
  induction log with
  | nil => exact le_of_eq Nat.cast_zero
  | cons g log ih =>
    have hrest := ih fun g' hg' => hamounts g' (List.mem_cons_of_mem _ hg')
    have hcons : granted (g :: log) a e = (if a ≤ g.1 ∧ g.1 ≤ e then g.2 else 0) + granted log a e := rfl
    rw [hcons]
    by_cases hone : g.2 = 1
    · have hsingles : singles (g :: log) = g.1 :: singles log :=
        congrArg (List.map Prod.fst) (List.filter_cons_of_pos (decide_eq_true hone))
      rw [hsingles, between_cons, hone, Nat.cast_add, Nat.cast_ite, Nat.cast_one, Nat.cast_zero]
      linarith
    · have hsingles : singles (g :: log) = singles log :=
        congrArg (List.map Prod.fst) (List.filter_cons_of_neg fun h => hone (of_decide_eq_true h))
      have hpos : 0 ≤ if a ≤ g.1 ∧ g.1 ≤ e then g.2 else 0 := by
        split
        · exact hamounts g List.mem_cons_self
        · exact le_refl 0
      rw [hsingles]
      linarith

end FlopOffice.Lib.Bucket
