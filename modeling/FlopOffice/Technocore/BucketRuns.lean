/-
# FlopOffice.Technocore.BucketRuns — any sequence of attempts on one bucket.

A bucket starts full and is asked for arbitrary amounts at readings of a clock that does not go back. The
log of what it granted is metered (`attempts_meters`), which bounds what any window of time sees. For the
buckets of a budget and requests of one token that is the advertised limit in a half-open minute.
-/
import FlopOffice.Technocore.Budget

namespace FlopOffice.Technocore

open FlopOffice.Lib FlopOffice.Lib.Bucket FlopOffice.Python

/-- One call of `try_acquire`: the reading of the clock it gets, and the amount. -/
structure Attempt where
  now : ℚ
  amount : ℚ

namespace TokenBucket

/-- The calls one after the other, with the log of the grants. -/
def attempts : TokenBucket → List Attempt → TokenBucket × List (ℚ × ℚ)
  | b, [] => (b, [])
  | b, c :: rest =>
    match b.tryAcquire c.amount c.now with
    | (true, b) => ((b.attempts rest).1, (c.now, c.amount) :: (b.attempts rest).2)
    | (false, b) => b.attempts rest

theorem attempts_cons {b : TokenBucket} {c : Attempt} {rest : List Attempt} :
    b.attempts (c :: rest) =
      match b.tryAcquire c.amount c.now with
      | (true, b) => ((b.attempts rest).1, (c.now, c.amount) :: (b.attempts rest).2)
      | (false, b) => b.attempts rest := (rfl)

/-! ## One attempt -/

/-- A refused call leaves the bucket as the refill does. -/
theorem tryAcquire_refused {b : TokenBucket} {amount now : ℚ}
    (h : (b.tryAcquire amount now).1 = false) : (b.tryAcquire amount now).2 = b.refill now := by
  unfold tryAcquire at h ⊢
  dsimp only at h ⊢
  split at h
  · cases h
  · rename_i hno
    rw [if_neg hno]

theorem le_tokens_refill {b : TokenBucket} (h : b.tokens ≤ b.capacity) (now : ℚ) :
    b.tokens ≤ (b.refill now).tokens := by
  have hgain : 0 ≤ max 0 (now - b.updated) * b.refillPerSecond :=
    mul_nonneg (le_max_left _ _) b.refill_pos.le
  show b.tokens ≤ min b.capacity (b.tokens + max 0 (now - b.updated) * b.refillPerSecond)
  exact le_min h (le_add_of_nonneg_right hgain)

/-- **One attempt** logs what it grants: without rounding nothing is gained. -/
theorem Metered.tryAcquire {b : TokenBucket} {log : List (ℚ × ℚ)} (h : b.Metered [] log)
    {amount now : ℚ} (hnow : b.updated ≤ now) (hamount : 0 ≤ amount) :
    (b.tryAcquire amount now).2.Metered []
        (if (b.tryAcquire amount now).1 then log ++ [(now, amount)] else log) ∧
      (b.tryAcquire amount now).2.capacity = b.capacity ∧
      (b.tryAcquire amount now).2.refillPerSecond = b.refillPerSecond ∧
      (b.tryAcquire amount now).2.updated = now := by
  obtain ⟨hmetered, hsame⟩ := h.tryAcquireBy Rounding.rounds_id b.fine_zero hnow hamount
  rw [mul_zero, zero_mul] at hmetered
  exact ⟨Meters.of_zero hmetered, hsame⟩

/-! ## Sequences -/

/-- **The run lemma**: the log of the calls, after the log the bucket accounts for. -/
theorem Metered.attempts {b : TokenBucket} {log : List (ℚ × ℚ)} (h : b.Metered [] log)
    {calls : List Attempt} (hamounts : ∀ c ∈ calls, 0 ≤ c.amount)
    (hclock : calls.Pairwise fun c d => c.now ≤ d.now) (hnow : ∀ c ∈ calls, b.updated ≤ c.now) :
    (b.attempts calls).1.Metered [] (log ++ (b.attempts calls).2) ∧
      (b.attempts calls).1.capacity = b.capacity ∧
      (b.attempts calls).1.refillPerSecond = b.refillPerSecond := by
  induction calls generalizing b log with
  | nil =>
    rw [show b.attempts [] = (b, []) from (rfl), List.append_nil]
    exact ⟨h, rfl, rfl⟩
  | cons c calls ih =>
    obtain ⟨hlater, hclock⟩ := List.pairwise_cons.mp hclock
    obtain ⟨hmetered, hcapacity, hrate, hupdated⟩ :=
      h.tryAcquire (hnow c List.mem_cons_self) (hamounts c List.mem_cons_self)
    rw [TokenBucket.attempts_cons]
    generalize b.tryAcquire c.amount c.now = result at hmetered hcapacity hrate hupdated
    have hrest := fun log' (hm : result.2.Metered [] log') => ih hm
      (fun d hd => hamounts d (List.mem_cons_of_mem _ hd)) hclock
      (fun d hd => hupdated ▸ hlater d hd)
    obtain ⟨granted, b'⟩ := result
    cases granted with
    | true =>
      obtain ⟨hm, hc, hr⟩ := hrest _ hmetered
      rw [if_pos rfl, List.append_assoc] at hm
      exact ⟨hm, hc.trans hcapacity, hr.trans hrate⟩
    | false =>
      obtain ⟨hm, hc, hr⟩ := hrest _ hmetered
      exact ⟨hm, hc.trans hcapacity, hr.trans hrate⟩

/-- A full bucket does not remember when it was filled. -/
theorem tryAcquire_of_full {b : TokenBucket} (h : b.tokens = b.capacity) (amount now : ℚ) :
    b.tryAcquire amount now = { b with updated := now }.tryAcquire amount now := by
  have hrefill : b.refill now = { b with updated := now }.refill now := by
    have hmin : ∀ gain, 0 ≤ gain → min b.capacity (b.tokens + gain) = b.capacity := fun gain hgain =>
      min_eq_left (by rw [h]; exact le_add_of_nonneg_right hgain)
    unfold TokenBucket.refill
    dsimp only
    rw [hmin _ (mul_nonneg (le_max_left _ _) b.refill_pos.le),
      hmin _ (mul_nonneg (le_max_left _ _) b.refill_pos.le)]
  unfold tryAcquire
  rw [hrefill]

/-- **A full bucket meters every sequence of attempts.** -/
theorem attempts_meters {b : TokenBucket} (hfull : b.tokens = b.capacity) {calls : List Attempt}
    (hamounts : ∀ c ∈ calls, 0 ≤ c.amount) (hclock : calls.Pairwise fun c d => c.now ≤ d.now) :
    (b.attempts calls).1.Metered [] (b.attempts calls).2 ∧
      (b.attempts calls).1.capacity = b.capacity ∧
      (b.attempts calls).1.refillPerSecond = b.refillPerSecond := by
  cases calls with
  | nil =>
    refine ⟨?_, rfl, rfl⟩
    show Meters b.capacity b.refillPerSecond [] b.tokens b.updated []
    rw [hfull]
    exact Meters.full b.capacity_pos.le b.refill_pos.le (fun _ hg => absurd hg List.not_mem_nil) b.updated
  | cons c calls =>
    have hstart : b.attempts (c :: calls) = { b with updated := c.now }.attempts (c :: calls) := by
      rw [attempts_cons, attempts_cons, tryAcquire_of_full hfull]
    rw [hstart]
    have hmetered : ({ b with updated := c.now } : TokenBucket).Metered [] [] := by
      show Meters b.capacity b.refillPerSecond [] b.tokens c.now []
      rw [hfull]
      exact Meters.full b.capacity_pos.le b.refill_pos.le (fun _ hg => absurd hg List.not_mem_nil) c.now
    refine hmetered.attempts hamounts hclock fun d hd => ?_
    rcases List.mem_cons.mp hd with rfl | hd
    · exact le_refl _
    · exact (List.pairwise_cons.mp hclock).1 d hd

theorem create_eq_ok {capacity rate now : ℚ} {b : TokenBucket} (h : create capacity rate now = .ok b) :
    b.capacity = capacity ∧ b.refillPerSecond = rate ∧ b.tokens = b.capacity := by
  unfold create at h
  split at h
  · cases h
    exact ⟨rfl, rfl, rfl⟩
  · cases h

end TokenBucket

/-! ## Buckets of a budget -/

/-- The size of a bucket for an advertised limit. -/
def ceiling (limit : Int) : ℚ := max 1 (limit * SAFETY_FACTOR)

theorem ceiling_pos (limit : Int) : 0 < ceiling limit :=
  lt_of_lt_of_le one_pos (le_max_left _ _)

/-- Two full buckets are no more than the limit, or less than two requests. -/
theorem ceiling_add_ceiling_le {limit : Int} {n : Nat} (h : 1 ≤ limit)
    (hn : (n : ℚ) < ceiling limit + ceiling limit / 60 * 60) : (n : Int) ≤ limit := by
  have htwice : (n : ℚ) < 2 * ceiling limit := by linarith
  unfold ceiling SAFETY_FACTOR at htwice
  rcases max_choice (1 : ℚ) (limit * (1 / 2)) with hmax | hmax
  · rw [hmax] at htwice
    have htwo : n < 2 := by
      have hcast : (n : ℚ) < (2 : Nat) := by
        rw [Nat.cast_ofNat]
        linarith
      exact_mod_cast hcast
    omega
  · rw [hmax] at htwice
    have hlt : (n : ℚ) < limit := by linarith
    have hint : (n : Int) < limit := by exact_mod_cast hlt
    omega

/-- A bucket is as large as an advertised limit makes it. -/
def TokenBucket.SizedExactly (b : TokenBucket) (limit : Int) : Prop :=
  b.capacity = ceiling limit ∧ b.refillPerSecond = ceiling limit / 60

/-- **A new budget** is full. -/
theorem Budget.fromAdvertised_spec (r w : Int) (readsAt writesAt : ℚ) :
    ∃ budget, Budget.fromAdvertised r w readsAt writesAt = .ok budget ∧
      ∀ kind, (budget.bucket kind).SizedExactly (kind.limit r w) ∧
        (budget.bucket kind).tokens = ceiling (kind.limit r w) ∧
        ((budget.bucket kind).updated = readsAt ∨ (budget.bucket kind).updated = writesAt) := by
  have hsize : ∀ limit : Int, 0 < ceiling limit ∧ 0 < ceiling limit / 60 := fun limit =>
    ⟨ceiling_pos limit, div_pos (ceiling_pos limit) (by norm_num)⟩
  let full (limit : Int) (now : ℚ) : TokenBucket :=
    ⟨ceiling limit, ceiling limit / 60, ceiling limit, now, (hsize limit).1, (hsize limit).2⟩
  have hcreate : ∀ (limit : Int) (now : ℚ),
      TokenBucket.create (ceiling limit) (ceiling limit / 60) now = .ok (full limit now) :=
    fun limit _ => dif_pos (hsize limit)
  refine ⟨⟨full r readsAt, full w writesAt⟩, ?_, fun kind => ?_⟩
  · unfold Budget.fromAdvertised
    show (TokenBucket.create (ceiling r) (ceiling r / 60) readsAt >>= fun readBucket =>
      TokenBucket.create (ceiling w) (ceiling w / 60) writesAt >>= fun writeBucket => _) = _
    rw [hcreate, hcreate]
    rfl
  · cases kind with
    | read => exact ⟨⟨rfl, rfl⟩, rfl, Or.inl rfl⟩
    | write => exact ⟨⟨rfl, rfl⟩, rfl, Or.inr rfl⟩

/-! ## What a window sees -/

/-- **The bound of a token bucket.** Whatever amounts are asked of a bucket, at readings of a clock that does
not go back: its level stays between nothing and full, a refused call takes nothing, and what was
granted from `a` to `e` is at most a full bucket and the refill of that time. For a bucket of a budget
with an advertised limit of one or more, a half-open minute sees no more grants of one token than the
limit. -/
theorem tokenBucket_bound {calls : List Attempt} (hamounts : ∀ c ∈ calls, 0 ≤ c.amount)
    (hclock : calls.Pairwise fun c d => c.now ≤ d.now) :
    (∀ capacity rate now b, TokenBucket.create capacity rate now = .ok b →
      0 ≤ (b.attempts calls).1.tokens ∧ (b.attempts calls).1.tokens ≤ capacity ∧
      (∀ amount t, ((b.attempts calls).1.tryAcquire amount t).1 = false →
        ((b.attempts calls).1.tryAcquire amount t).2 = (b.attempts calls).1.refill t ∧
        (b.attempts calls).1.tokens ≤ ((b.attempts calls).1.tryAcquire amount t).2.tokens) ∧
      ∀ a e, a ≤ e → granted (b.attempts calls).2 a e ≤ capacity + rate * (e - a)) ∧
    ∀ (r w : Int) readsAt writesAt budget kind,
      Budget.fromAdvertised r w readsAt writesAt = .ok budget → 1 ≤ kind.limit r w →
      ∀ a, (inWindow (singles ((budget.bucket kind).attempts calls).2) a (a + 60) : Int) ≤
        kind.limit r w := by
  constructor
  · intro capacity rate now b hcreate
    obtain ⟨hcapacity, hrate, hfull⟩ := TokenBucket.create_eq_ok hcreate
    obtain ⟨hm, hc, hr⟩ := TokenBucket.attempts_meters hfull hamounts hclock
    have hle : (b.attempts calls).1.tokens ≤ (b.attempts calls).1.capacity := hm.le_capacity
    refine ⟨hm.nonneg, ?_, fun amount t hrefused => ?_, fun a e hae => ?_⟩
    · rw [← hcapacity, ← hc]
      exact hle
    · have hrefill := TokenBucket.tryAcquire_refused hrefused
      rw [hrefill]
      exact ⟨rfl, TokenBucket.le_tokens_refill hle t⟩
    · rw [← hcapacity, ← hrate, ← hc, ← hr]
      exact (hm.paced a e hae).trans (le_of_eq (add_zero _))
  · intro r w readsAt writesAt budget kind hbudget hlimit a
    obtain ⟨budget', hmade, hspec⟩ := Budget.fromAdvertised_spec r w readsAt writesAt
    rw [hbudget] at hmade
    cases hmade
    obtain ⟨⟨hsize, hrate⟩, htokens, -⟩ := hspec kind
    obtain ⟨hm, hc, hr⟩ := TokenBucket.attempts_meters (htokens.trans hsize.symm) hamounts hclock
    have hpaced := hm.paced_singles
    rw [hc, hr, hsize, hrate] at hpaced
    refine ceiling_add_ceiling_le hlimit ?_
    exact hpaced.inWindow_lt (div_pos (ceiling_pos _) (by norm_num)) (by norm_num)

/-- Three attempts on buckets for one token a minute. -/
theorem tokenBucket_bound_three :
    ∃ budget, Budget.fromAdvertised 1 1 0 0 = .ok budget ∧
      inWindow (singles (budget.reads.attempts [⟨0, 1⟩, ⟨30, 1⟩, ⟨60, 1⟩]).2) 0 60 ≤ 1 := by
  obtain ⟨budget, hbudget, -⟩ := Budget.fromAdvertised_spec 1 1 0 0
  have hbound := (@tokenBucket_bound [⟨0, 1⟩, ⟨30, 1⟩, ⟨60, 1⟩] (by simp) (by norm_num)).2 1 1 0 0
    budget .read hbudget (le_refl 1) 0
  rw [zero_add] at hbound
  exact ⟨budget, hbudget, Int.ofNat_le.mp hbound⟩

end FlopOffice.Technocore
