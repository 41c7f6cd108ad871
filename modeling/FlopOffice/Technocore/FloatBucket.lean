/-
# FlopOffice.Technocore.FloatBucket — the token bucket, in floats.

The source computes the level of a bucket in floats, so every difference, product and sum is rounded. Here
the operations take the rounding as an argument; with none they are those of the exact bucket
(`acquireBy_id`). A reading of the clock may then gain a small part of the capacity: a refill four
relative errors of it, a grant two (`Metered.refillBy`, `Metered.tryAcquireBy`). A call of `acquire` that is
granted counts its grant, and a gain for each reading it may have taken (`Fits.acquireBy`).
-/
import FlopOffice.Lib.Bucket
import FlopOffice.Python.Float
import FlopOffice.Technocore.RateLimit

namespace FlopOffice.Technocore

open FlopOffice.Lib FlopOffice.Lib.Bucket FlopOffice.Lib.Rounding FlopOffice.Python

namespace TokenBucket

/-! ## Operations -/

section Operations

variable (fl : ℚ → ℚ)

/-- `_refill`. -/
def refillBy (b : TokenBucket) (now : ℚ) : TokenBucket :=
  let elapsed := max 0 (fl (now - b.updated))
  { b with
    tokens := min b.capacity (fl (b.tokens + fl (elapsed * b.refillPerSecond)))
    updated := now }

/-- `try_acquire`, at the time `now`. -/
def tryAcquireBy (b : TokenBucket) (tokens now : ℚ) : Bool × TokenBucket :=
  let b := b.refillBy fl now
  if tokens ≤ b.tokens then (true, { b with tokens := fl (b.tokens - tokens) }) else (false, b)

/-- The loop of `acquire`, over the readings of the clock. -/
def acquireLoopBy (tokens deadline : ℚ) (block : Bool) : TokenBucket → List ℚ → Acquired × TokenBucket
  | b, [] => (.waiting, b)
  | b, t₁ :: rest =>
    match b.tryAcquireBy fl tokens t₁ with
    | (true, b) => (.granted, b)
    | (false, b) =>
      match rest with
      | [] => (.waiting, b)
      | t₂ :: rest =>
        let b := b.refillBy fl t₂
        let wait := max (fl (1 / 100)) (fl (fl (tokens - b.tokens) / b.refillPerSecond))
        if !block then (.refused wait, b)
        else match rest with
          | [] => (.waiting, b)
          | t₃ :: rest =>
            if fl (t₃ + wait) > deadline then (.refused wait, b)
            else acquireLoopBy tokens deadline block b rest
termination_by _ readings => readings.length

/-- `acquire`: the first reading fixes the deadline. -/
def acquireBy (b : TokenBucket) (readings : List ℚ) (tokens : ℚ := 1) (block : Bool := true)
    (maxWait : ℚ := 30) : Acquired × TokenBucket :=
  match readings with
  | [] => (.waiting, b)
  | t₀ :: rest => acquireLoopBy fl tokens (fl (t₀ + maxWait)) block b rest

theorem tryAcquireBy_of_le {b : TokenBucket} {tokens now : ℚ}
    (h : tokens ≤ (b.refillBy fl now).tokens) : b.tryAcquireBy fl tokens now =
      (true, { b.refillBy fl now with tokens := fl ((b.refillBy fl now).tokens - tokens) }) := if_pos h

theorem tryAcquireBy_of_lt {b : TokenBucket} {tokens now : ℚ}
    (h : (b.refillBy fl now).tokens < tokens) :
    b.tryAcquireBy fl tokens now = (false, b.refillBy fl now) := if_neg (not_le.mpr h)

theorem tryAcquireBy_updated (b : TokenBucket) (tokens now : ℚ) :
    (b.tryAcquireBy fl tokens now).2.updated = now := by
  unfold tryAcquireBy
  dsimp only
  split
  · rfl
  · rfl

/-- A grant is made at a reading of the clock. -/
theorem acquireLoopBy_granted {tokens deadline : ℚ} {block : Bool} {b b' : TokenBucket}
    {readings : List ℚ}
    (h : b.acquireLoopBy fl tokens deadline block readings = (.granted, b')) : b'.updated ∈ readings := by
  fun_induction TokenBucket.acquireLoopBy fl tokens deadline block b readings with
  | case1 | case3 | case4 | case5 | case6 => cases h
  | case2 b t rest b₁ htry =>
    cases h
    have hupdated := tryAcquireBy_updated fl b tokens t
    rw [htry] at hupdated
    exact hupdated ▸ List.mem_cons_self
  | case7 b t₁ b₁ htry t₂ _ wait _ t₃ rest _ ih =>
    exact List.mem_cons_of_mem _ (List.mem_cons_of_mem _ (List.mem_cons_of_mem _ (ih h)))

theorem acquireBy_granted {b b' : TokenBucket} {readings : List ℚ}
    (h : b.acquireBy fl readings = (.granted, b')) : b'.updated ∈ readings := by
  cases readings with
  | nil => cases h
  | cons t₀ rest => exact List.mem_cons_of_mem _ (acquireLoopBy_granted fl h)

end Operations

/-- **Without rounding** the loop is that of the exact bucket. -/
theorem acquireLoopBy_id (tokens deadline : ℚ) (block : Bool) (b : TokenBucket) (readings : List ℚ) :
    b.acquireLoopBy id tokens deadline block readings = b.acquireLoop tokens deadline block readings := by
  fun_induction TokenBucket.acquireLoopBy id tokens deadline block b readings with
  | case1 b => rfl
  | case2 b t rest b₁ htry | case3 b t b₁ htry =>
    have htry' : b.tryAcquire tokens t = _ := htry
    rw [acquireLoop_cons, htry']
  | case4 b t₁ b₁ htry t₂ rest b₂ wait hblock =>
    have htry' : b.tryAcquire tokens t₁ = _ := htry
    rw [acquireLoop_cons, htry']
    exact (if_pos hblock).symm
  | case5 b t₁ b₁ htry t₂ b₂ hblock =>
    have htry' : b.tryAcquire tokens t₁ = _ := htry
    rw [acquireLoop_cons, htry']
    exact (if_neg hblock).symm
  | case6 b t₁ b₁ htry t₂ b₂ wait hblock t₃ rest hlate =>
    have htry' : b.tryAcquire tokens t₁ = _ := htry
    rw [acquireLoop_cons, htry']
    exact ((if_neg hblock).trans (if_pos hlate)).symm
  | case7 b t₁ b₁ htry t₂ b₂ wait hblock t₃ rest hlate ih =>
    have htry' : b.tryAcquire tokens t₁ = _ := htry
    rw [acquireLoop_cons, htry']
    exact ih.trans ((if_neg hblock).trans (if_neg hlate)).symm

theorem acquireBy_id (b : TokenBucket) (readings : List ℚ) :
    b.acquireBy id readings = b.acquire readings := by
  cases readings with
  | nil => rfl
  | cons t₀ rest => exact acquireLoopBy_id _ _ _ _ _

/-! ## What a reading gains -/

/-- The level of the bucket accounts for the log of its grants and that of its gains. -/
def Metered (b : TokenBucket) (gains log : List (ℚ × ℚ)) : Prop :=
  Meters b.capacity b.refillPerSecond gains b.tokens b.updated log

/-- A rounding that is fine enough for a bucket. -/
structure Fine (u tiny : ℚ) (b : TokenBucket) : Prop where
  error_nonneg : 0 ≤ u
  error_le : u ≤ 1 / 16
  tiny_nonneg : 0 ≤ tiny
  tiny_le : 4 * tiny * (b.refillPerSecond + 1) ≤ u * b.capacity

theorem fine_zero (b : TokenBucket) : Fine 0 0 b :=
  ⟨le_refl 0, by norm_num, le_refl 0, by simp⟩

variable {fl : ℚ → ℚ} {u tiny : ℚ} {b : TokenBucket}

theorem refillBy_nonneg (hfl : Rounds u tiny fl) (htokens : 0 ≤ b.tokens) (now : ℚ) :
    0 ≤ (b.refillBy fl now).tokens := by
  have hgain : 0 ≤ fl (max 0 (fl (now - b.updated)) * b.refillPerSecond) :=
    hfl.nonneg _ (mul_nonneg (le_max_left _ _) b.refill_pos.le)
  exact le_min b.capacity_pos.le (hfl.nonneg _ (add_nonneg htokens hgain))

/-- **The level after a refill** is above the exact one by four relative errors of a full bucket. -/
theorem refillBy_le (hfl : Rounds u tiny fl) (hfine : Fine u tiny b) (htokens : 0 ≤ b.tokens) {now : ℚ}
    (hnow : b.updated ≤ now) : (b.refillBy fl now).tokens ≤
      b.tokens + (now - b.updated) * b.refillPerSecond + 4 * u * b.capacity := by
  obtain ⟨hu, hu', htiny, hfine⟩ := hfine
  have hc := b.capacity_pos
  have hq := b.refill_pos
  have hd : 0 ≤ now - b.updated := sub_nonneg.mpr hnow
  have hD : 0 ≤ (now - b.updated) * b.refillPerSecond := mul_nonneg hd hq.le
  have hslack : 0 ≤ 4 * u * b.capacity := by positivity
  show min b.capacity _ ≤ _
  rcases le_or_gt b.capacity (b.tokens + (now - b.updated) * b.refillPerSecond) with hfull | hroom
  · exact (min_le_left _ _).trans (by linarith)
  have helapsed : max 0 (fl (now - b.updated)) = fl (now - b.updated) := max_eq_right (hfl.nonneg _ hd)
  have hrounded := hfl.add_mul_le hu hu' htiny htokens hd hq.le
  have hpart : u * (b.tokens + (now - b.updated) * b.refillPerSecond) ≤ u * b.capacity :=
    mul_le_mul_of_nonneg_left hroom.le hu
  have hsmall : 0 ≤ u * b.capacity := mul_nonneg hu hc.le
  rw [helapsed]
  exact (min_le_right _ _).trans (by linarith)

/-- What a grant leaves is too much by two relative errors of a full bucket at most. -/
theorem fl_sub_le (hfl : Rounds u tiny fl) (hfine : Fine u tiny b) {tokens amount : ℚ}
    (hamount : 0 ≤ amount) (hle : amount ≤ tokens) (htokens : tokens ≤ b.capacity) :
    fl (tokens - amount) + amount ≤ tokens + 2 * u * b.capacity := by
  obtain ⟨hu, -, htiny, hfine⟩ := hfine
  have hrounded := hfl.le (sub_nonneg.mpr hle)
  have hpart : u * (tokens - amount) ≤ u * b.capacity := mul_le_mul_of_nonneg_left (by linarith) hu
  have hq : 0 ≤ tiny * b.refillPerSecond := mul_nonneg htiny b.refill_pos.le
  linarith

/-- **A refill** is metered, with its gain. -/
theorem Metered.refillBy {gains log : List (ℚ × ℚ)} (h : b.Metered gains log) (hfl : Rounds u tiny fl)
    (hfine : Fine u tiny b) {now : ℚ} (hnow : b.updated ≤ now) :
    (b.refillBy fl now).Metered (gains ++ [(now, 4 * u * b.capacity)]) log :=
  Meters.refill h b.refill_pos.le hnow (mul_nonneg (mul_nonneg (by norm_num) hfine.error_nonneg)
    b.capacity_pos.le) (refillBy_nonneg hfl h.nonneg now) (min_le_left _ _)
    (refillBy_le hfl hfine h.nonneg hnow)

/-- **One attempt** logs what it grants, and gains. -/
theorem Metered.tryAcquireBy {gains log : List (ℚ × ℚ)} (h : b.Metered gains log)
    (hfl : Rounds u tiny fl) (hfine : Fine u tiny b) {amount now : ℚ} (hnow : b.updated ≤ now)
    (hamount : 0 ≤ amount) :
    (b.tryAcquireBy fl amount now).2.Metered (gains ++ [(now, 6 * u * b.capacity)])
        (if (b.tryAcquireBy fl amount now).1 then log ++ [(now, amount)] else log) ∧
      (b.tryAcquireBy fl amount now).2.capacity = b.capacity ∧
      (b.tryAcquireBy fl amount now).2.refillPerSecond = b.refillPerSecond ∧
      (b.tryAcquireBy fl amount now).2.updated = now := by
  have hfilled := h.refillBy hfl hfine hnow
  have hpart : 0 ≤ u * b.capacity := mul_nonneg hfine.error_nonneg b.capacity_pos.le
  have hgained : ∀ g ∈ gains ++ [(now, 6 * u * b.capacity)], 0 ≤ g.2 := fun g hg => by
    rcases List.mem_append.mp hg with hg | hg
    · exact h.gained g hg
    · rw [List.mem_singleton.mp hg]
      show 0 ≤ 6 * u * b.capacity
      linarith
  rcases le_or_gt amount (b.refillBy fl now).tokens with hle | hlt
  · rw [tryAcquireBy_of_le fl hle]
    have hlevel := fl_sub_le hfl hfine hamount hle (min_le_left _ _)
    have htaken := Meters.take hfilled b.refill_pos.le hamount
      (by linarith : 0 ≤ 2 * u * b.capacity) (hfl.nonneg _ (sub_nonneg.mpr hle)) hlevel
    refine ⟨htaken.mono hgained fun a e => ?_, rfl, rfl, rfl⟩
    rw [granted_append, granted_append, granted_append]
    show _ + granted [(now, _)] a e + granted [(now, _)] a e ≤ _
    rw [granted_singleton, granted_singleton, granted_singleton]
    split <;> linarith
  · rw [tryAcquireBy_of_lt fl hlt]
    refine ⟨hfilled.mono hgained fun a e => ?_, rfl, rfl, rfl⟩
    rw [granted_append, granted_append, granted_singleton, granted_singleton]
    split <;> linarith

/-! ## Grants of one token -/

/-- The level of the bucket accounts for its grants at the given times, with a gain for each reading. -/
def Fits (u : ℚ) (b : TokenBucket) (readings times : List ℚ) : Prop :=
  b.Metered (readings.map fun t => (t, 6 * u * b.capacity)) (times.map fun t => (t, 1))

/-- What a bucket has become: of the same size, accounting for the given grants. -/
structure Becomes (u : ℚ) (b b' : TokenBucket) (readings times : List ℚ) (last : ℚ) : Prop where
  capacity : b'.capacity = b.capacity
  refillPerSecond : b'.refillPerSecond = b.refillPerSecond
  fits : Fits u b' readings times
  updated_le : b'.updated ≤ last

theorem Fine.congr {b' : TokenBucket} (h : Fine u tiny b) (hcapacity : b'.capacity = b.capacity)
    (hrate : b'.refillPerSecond = b.refillPerSecond) : Fine u tiny b' :=
  ⟨h.error_nonneg, h.error_le, h.tiny_nonneg, by rw [hcapacity, hrate]; exact h.tiny_le⟩

theorem gains_nonneg (hu : 0 ≤ u) (readings : List ℚ) :
    ∀ g ∈ readings.map fun t => (t, 6 * u * b.capacity), 0 ≤ g.2 := fun g hg => by
  obtain ⟨t, -, rfl⟩ := List.mem_map.mp hg
  exact mul_nonneg (mul_nonneg (by norm_num) hu) b.capacity_pos.le

theorem fits_full (hu : 0 ≤ u) (h : b.tokens = b.capacity) (readings : List ℚ) :
    Fits u b readings [] := by
  unfold Fits Metered
  rw [h]
  exact Meters.full b.capacity_pos.le b.refill_pos.le (gains_nonneg hu readings) b.updated

/-- Readings that a call does not take. -/
theorem Fits.mono {readings readings' times : List ℚ} (h : Fits u b readings times) (hu : 0 ≤ u)
    (hsub : readings.Sublist readings') : Fits u b readings' times := by
  refine Meters.mono h (gains_nonneg hu readings') fun a e => ?_
  have hle : between readings a e ≤ between readings' a e := hsub.countP_le
  have hgain : 0 ≤ 6 * u * b.capacity := mul_nonneg (mul_nonneg (by norm_num) hu) b.capacity_pos.le
  rw [granted_map_const, granted_map_const]
  exact mul_le_mul_of_nonneg_right (by exact_mod_cast hle) hgain

/-- Grants that are not counted. -/
theorem Fits.of_append {readings times times' : List ℚ} (h : Fits u b readings (times ++ times')) :
    Fits u b readings times := by
  unfold Fits Metered at h ⊢
  rw [List.map_append] at h
  exact h.of_append

theorem Becomes.mono {b' : TokenBucket} {readings readings' times : List ℚ} {last last' : ℚ}
    (h : Becomes u b b' readings times last) (hu : 0 ≤ u) (hsub : readings.Sublist readings')
    (hle : last ≤ last') : Becomes u b b' readings' times last' :=
  ⟨h.capacity, h.refillPerSecond, h.fits.mono hu hsub, h.updated_le.trans hle⟩

theorem Becomes.trans {b₁ b₂ : TokenBucket} {readings readings' times times' : List ℚ} {last last' : ℚ}
    (h : Becomes u b b₁ readings times last) (h' : Becomes u b₁ b₂ readings' times' last') :
    Becomes u b b₂ readings' times' last' :=
  ⟨h'.capacity.trans h.capacity, h'.refillPerSecond.trans h.refillPerSecond, h'.fits, h'.updated_le⟩

theorem Fits.refillBy {readings times : List ℚ} (h : Fits u b readings times)
    (hfl : Rounds u tiny fl) (hfine : Fine u tiny b) {now : ℚ} (hnow : b.updated ≤ now) :
    Becomes u b (b.refillBy fl now) (readings ++ [now]) times now := by
  have hpart : 0 ≤ u * b.capacity := mul_nonneg hfine.error_nonneg b.capacity_pos.le
  have hmetered := Metered.refillBy h hfl hfine hnow
  refine ⟨rfl, rfl, Meters.mono hmetered (gains_nonneg hfine.error_nonneg _) fun a e => ?_, le_refl now⟩
  rw [List.map_append, granted_append, granted_append, List.map_singleton, granted_singleton,
    granted_singleton]
  show _ ≤ granted (readings.map fun t => (t, 6 * u * b.capacity)) a e +
    if a ≤ now ∧ now ≤ e then 6 * u * b.capacity else 0
  split <;> linarith

/-- **One attempt** counts its grant, at the time of the attempt. -/
theorem Fits.tryAcquireBy {b' : TokenBucket} {readings times : List ℚ} (h : Fits u b readings times)
    (hfl : Rounds u tiny fl) (hfine : Fine u tiny b) {now : ℚ} (hnow : b.updated ≤ now) {granted : Bool}
    (htry : b.tryAcquireBy fl 1 now = (granted, b')) :
    b'.updated = now ∧
      Becomes u b b' (readings ++ [now]) (if granted then times ++ [b'.updated] else times) now := by
  obtain ⟨hmetered, hcapacity, hrate, hupdated⟩ := Metered.tryAcquireBy h hfl hfine hnow zero_le_one
  rw [htry] at hmetered hcapacity hrate hupdated
  refine ⟨hupdated, hcapacity, hrate, ?_, hupdated.le⟩
  unfold Fits
  rw [hupdated, List.map_append]
  dsimp only at hcapacity hmetered
  rw [hcapacity]
  cases granted with
  | true =>
    rw [if_pos rfl] at hmetered ⊢
    rw [List.map_append]
    exact hmetered
  | false => exact hmetered

/-- A refused attempt, and the refill after it. -/
theorem Fits.refused {b₁ : TokenBucket} {readings times : List ℚ} (h : Fits u b readings times)
    (hfl : Rounds u tiny fl) (hfine : Fine u tiny b) {t₁ t₂ : ℚ} (h₁ : b.updated ≤ t₁) (h₂ : t₁ ≤ t₂)
    (htry : b.tryAcquireBy fl 1 t₁ = (false, b₁)) :
    Becomes u b (b₁.refillBy fl t₂) (readings ++ [t₁] ++ [t₂]) times t₂ := by
  obtain ⟨hupdated, hfirst⟩ := h.tryAcquireBy hfl hfine h₁ htry
  have hfine₁ := hfine.congr hfirst.capacity hfirst.refillPerSecond
  exact hfirst.trans (hfirst.fits.refillBy hfl hfine₁ (by rw [hupdated]; exact h₂))

/-- **The loop** counts its grant, if it comes to one. -/
theorem Fits.acquireLoopBy {deadline : ℚ} {block : Bool} {b' : TokenBucket}
    {seen times readings : List ℚ} {last : ℚ} {a : Acquired} (h : Fits u b seen times)
    (hfl : Rounds u tiny fl) (hfine : Fine u tiny b) (hsorted : (b.updated :: readings).Pairwise (· ≤ ·))
    (hlast : ∀ t ∈ b.updated :: readings, t ≤ last)
    (hloop : TokenBucket.acquireLoopBy fl 1 deadline block b readings = (a, b')) :
    Becomes u b b' (seen ++ readings) (if a = .granted then times ++ [b'.updated] else times) last := by
  have hu := hfine.error_nonneg
  have hfirst : ∀ (seen : List ℚ) t rest, (seen ++ [t]).Sublist (seen ++ t :: rest) :=
    fun seen t rest => ((List.nil_sublist rest).cons_cons t).append_left seen
  have htwo : ∀ (seen : List ℚ) t₁ t₂ rest,
      (seen ++ [t₁] ++ [t₂]).Sublist (seen ++ t₁ :: t₂ :: rest) := fun seen t₁ t₂ rest => by
    rw [List.append_assoc]
    exact (((List.nil_sublist rest).cons_cons t₂).cons_cons t₁).append_left seen
  fun_induction TokenBucket.acquireLoopBy fl 1 deadline block b readings generalizing seen with
  | case1 b =>
    cases hloop
    exact ⟨rfl, rfl, by rw [List.append_nil]; exact h, hlast _ List.mem_cons_self⟩
  | case2 b t rest b₁ htry =>
    cases hloop
    obtain ⟨hbt, -⟩ := List.pairwise_cons.mp hsorted
    have hgranted := (h.tryAcquireBy hfl hfine (hbt t List.mem_cons_self) htry).2
    exact hgranted.mono hu (hfirst seen t rest) (hlast t (List.mem_cons_of_mem _ List.mem_cons_self))
  | case3 b t b₁ htry =>
    cases hloop
    obtain ⟨hbt, -⟩ := List.pairwise_cons.mp hsorted
    have hrefused := (h.tryAcquireBy hfl hfine (hbt t List.mem_cons_self) htry).2
    exact hrefused.mono hu (hfirst seen t []) (hlast t (List.mem_cons_of_mem _ List.mem_cons_self))
  | case4 b t₁ b₁ htry t₂ rest | case5 b t₁ b₁ htry t₂ | case6 b t₁ b₁ htry t₂ =>
    obtain ⟨rfl, rfl⟩ := Prod.mk.inj hloop
    obtain ⟨hb, hsorted⟩ := List.pairwise_cons.mp hsorted
    obtain ⟨ht, -⟩ := List.pairwise_cons.mp hsorted
    have hrefused := h.refused hfl hfine (hb t₁ List.mem_cons_self) (ht t₂ List.mem_cons_self) htry
    exact hrefused.mono hu (htwo seen t₁ t₂ _)
      (hlast t₂ (List.mem_cons_of_mem _ (List.mem_cons_of_mem _ List.mem_cons_self)))
  | case7 b t₁ b₁ htry t₂ _ wait _ t₃ rest _ =>
    rename_i ih
    obtain ⟨hb, hsorted⟩ := List.pairwise_cons.mp hsorted
    obtain ⟨ht, hsorted⟩ := List.pairwise_cons.mp hsorted
    have hrefused := h.refused hfl hfine (hb t₁ List.mem_cons_self) (ht t₂ List.mem_cons_self) htry
    have hrest : (t₂ :: rest).Pairwise (· ≤ ·) := by
      obtain ⟨ht₂, hsorted⟩ := List.pairwise_cons.mp hsorted
      exact List.pairwise_cons.mpr ⟨fun t ht => ht₂ t (List.mem_cons_of_mem _ ht),
        (List.pairwise_cons.mp hsorted).2⟩
    have hloop' := ih hrefused.fits (hfine.congr hrefused.capacity hrefused.refillPerSecond) hrest
      (fun t ht => hlast t ?_) hloop
    -- the loop does not show the reading `t₃` to the bucket
    · refine hrefused.trans (hloop'.mono hu ?_ le_rfl)
      rw [List.append_assoc, List.append_assoc]
      exact (((List.sublist_cons_self t₃ rest).cons_cons t₂).cons_cons t₁).append_left seen
    -- the clock has moved on to `t₂`
    rcases List.mem_cons.mp ht with rfl | ht
    · exact List.mem_cons_of_mem _ (List.mem_cons_of_mem _ List.mem_cons_self)
    · exact List.mem_cons_of_mem _ (List.mem_cons_of_mem _ (List.mem_cons_of_mem _
        (List.mem_cons_of_mem _ ht)))

/-- **A call of `acquire`** counts its grant, if it gets one. -/
theorem Fits.acquireBy {b' : TokenBucket} {seen times readings : List ℚ} {last : ℚ} {a : Acquired}
    (h : Fits u b seen times) (hfl : Rounds u tiny fl) (hfine : Fine u tiny b)
    (hsorted : (b.updated :: readings).Pairwise (· ≤ ·))
    (hlast : ∀ t ∈ b.updated :: readings, t ≤ last) (hacquire : b.acquireBy fl readings = (a, b')) :
    Becomes u b b' (seen ++ readings) (if a = .granted then times ++ [b'.updated] else times) last := by
  cases readings with
  | nil =>
    cases hacquire
    exact ⟨rfl, rfl, by rw [List.append_nil]; exact h, hlast _ List.mem_cons_self⟩
  | cons t₀ rest =>
    obtain ⟨hb, hrest⟩ := List.pairwise_cons.mp hsorted
    have hloop := h.acquireLoopBy hfl hfine (List.pairwise_cons.mpr
      ⟨fun t ht => hb t (List.mem_cons_of_mem _ ht), (List.pairwise_cons.mp hrest).2⟩)
      (fun t ht => hlast t ?_) hacquire
    · exact hloop.mono hfine.error_nonneg ((List.sublist_cons_self t₀ rest).append_left seen) le_rfl
    rcases List.mem_cons.mp ht with rfl | ht
    · exact List.mem_cons_self
    · exact List.mem_cons_of_mem _ (List.mem_cons_of_mem _ ht)

/-- The first attempt of a call. -/
theorem acquireBy_of_le {t : ℚ} (h : 1 ≤ (b.refillBy fl t).tokens) (t₀ : ℚ) (rest : List ℚ) :
    b.acquireBy fl (t₀ :: t :: rest) =
      (.granted, { b.refillBy fl t with tokens := fl ((b.refillBy fl t).tokens - 1) }) := by
  show TokenBucket.acquireLoopBy fl 1 (fl (t₀ + 30)) true b (t :: rest) = _
  unfold TokenBucket.acquireLoopBy
  rw [tryAcquireBy_of_le fl h]

/-- A full bucket grants at once. -/
theorem acquireBy_full (hfl : Rounds u tiny fl) (hone : ∀ x, 1 ≤ x → 1 ≤ fl x)
    (hfull : b.tokens = b.capacity) (hcapacity : 1 ≤ b.capacity) (t₀ t : ℚ) (rest : List ℚ) :
    ∃ b', b.acquireBy fl (t₀ :: t :: rest) = (.granted, b') ∧ b'.updated = t := by
  have hgain : 0 ≤ fl (max 0 (fl (t - b.updated)) * b.refillPerSecond) :=
    hfl.nonneg _ (mul_nonneg (le_max_left _ _) b.refill_pos.le)
  have htoken : 1 ≤ (b.refillBy fl t).tokens :=
    le_min hcapacity (hone _ (by rw [hfull]; linarith))
  exact ⟨_, acquireBy_of_le htoken t₀ rest, rfl⟩

end TokenBucket

end FlopOffice.Technocore
