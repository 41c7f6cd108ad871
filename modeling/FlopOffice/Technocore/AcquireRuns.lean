/-
# FlopOffice.Technocore.AcquireRuns — `acquire` among other callers.

The lock covers one `try_acquire` or one refill. Between two of them the bucket belongs to everybody: a
round of the loop finds it as others have left it, which is a function of the round here. The clock is
held to what a clock does: it does not go back, and a sleep takes at least as long as it was asked to.

Every round that does not end the call costs a hundredth of a second before the deadline, so the rounds
are numbered (`length_le_of_waiting`), whatever the bucket holds. A round whose attempt fails leaves the
bucket as others and the refills made it (`passOver`), so the bucket at the end of a call is known from
the rounds alone (`acquireRounds_spec`): up to the grant, if there is one, it is never charged.
-/
import FlopOffice.Technocore.RateLimit
import Mathlib.Algebra.Order.Floor.Semiring
import Mathlib.Data.Rat.Floor
import Mathlib.Tactic.Linarith
import Mathlib.Tactic.NormNum

namespace FlopOffice.Technocore

namespace TokenBucket

/-! ## Rounds -/

/-- What surrounds one iteration of the loop: what others do to the bucket before the attempt and before
the refill, and the three readings of the clock. -/
structure Round where
  beforeAttempt : TokenBucket → TokenBucket
  t₁ : ℚ
  beforeRefill : TokenBucket → TokenBucket
  t₂ : ℚ
  t₃ : ℚ

/-- A round in which nobody else uses the bucket. -/
def Round.alone (t₁ t₂ t₃ : ℚ) : Round := ⟨id, t₁, id, t₂, t₃⟩

/-- How an iteration ends: with the call, or in a sleep. -/
inductive Iterated
  | finished (a : Acquired)
  | sleeps (duration : ℚ)

/-- One iteration of the loop, and the bucket it leaves. -/
def iterate (tokens deadline : ℚ) (block : Bool) (r : Round) (b : TokenBucket) : Iterated × TokenBucket :=
  match (r.beforeAttempt b).tryAcquire tokens r.t₁ with
  | (true, b) => (.finished .granted, b)
  | (false, b) =>
    let b := (r.beforeRefill b).refill r.t₂
    let wait := max (1 / 100) ((tokens - b.tokens) / b.refillPerSecond)
    if block = false ∨ r.t₃ + wait > deadline then (.finished (.refused wait), b)
    else (.sleeps (min wait (1 / 2)), b)

/-- The loop over the rounds it gets, and the bucket it leaves; where the rounds end the call is still
waiting. -/
def acquireRounds (tokens deadline : ℚ) (block : Bool) : TokenBucket → List Round → Acquired × TokenBucket
  | b, [] => (.waiting, b)
  | b, r :: rest =>
    match iterate tokens deadline block r b with
    | (.finished a, b) => (a, b)
    | (.sleeps _, b) => acquireRounds tokens deadline block b rest

/-- The clock does not go back, and advances at least by each slept duration. -/
def Obeys (tokens deadline : ℚ) (block : Bool) : ℚ → TokenBucket → List Round → Prop
  | _, _, [] => True
  | earliest, b, r :: rest =>
    earliest ≤ r.t₁ ∧ r.t₁ ≤ r.t₂ ∧ r.t₂ ≤ r.t₃ ∧
      match iterate tokens deadline block r b with
      | (.finished _, _) => True
      | (.sleeps duration, b) => Obeys tokens deadline block (r.t₃ + duration) b rest

/-! ## The bucket, from the rounds alone -/

/-- The bucket after a round in which the call takes nothing: what others do to it, and the two refills. -/
def Round.passOver (r : Round) (b : TokenBucket) : TokenBucket :=
  (r.beforeRefill ((r.beforeAttempt b).refill r.t₁)).refill r.t₂

/-- The bucket after rounds in which the call takes nothing. -/
def untouched (b : TokenBucket) (rounds : List Round) : TokenBucket :=
  rounds.foldl (fun b r => r.passOver b) b

/-- The bucket that the attempt of a round finds and refills, after rounds in which the call took nothing. -/
def offered (b : TokenBucket) (before : List Round) (r : Round) : TokenBucket :=
  (r.beforeAttempt (untouched b before)).refill r.t₁

/-- In each of the rounds the bucket has too little, and the attempt answers `False`. -/
def AttemptsFail (tokens : ℚ) (b : TokenBucket) (rounds : List Round) : Prop :=
  ∀ before r after, rounds = before ++ r :: after →
    (offered b before r).tokens < tokens ∧
      (r.beforeAttempt (untouched b before)).tryAcquire tokens r.t₁ = (false, offered b before r)

/-- The attempt of the round `r` succeeds, and leaves the bucket `left`, less by the amount. -/
def Deducts (tokens : ℚ) (b : TokenBucket) (before : List Round) (r : Round) (left : TokenBucket) : Prop :=
  tokens ≤ (offered b before r).tokens ∧
    (r.beforeAttempt (untouched b before)).tryAcquire tokens r.t₁ = (true, left) ∧
    left = { offered b before r with tokens := (offered b before r).tokens - tokens }

@[simp] theorem untouched_nil {b : TokenBucket} : untouched b [] = b := rfl

@[simp] theorem untouched_cons {b : TokenBucket} {r : Round} {rounds : List Round} :
    untouched b (r :: rounds) = untouched (r.passOver b) rounds := rfl

@[simp] theorem offered_cons {b : TokenBucket} {r r' : Round} {before : List Round} :
    offered b (r :: before) r' = offered (r.passOver b) before r' := rfl

theorem attemptsFail_nil {tokens : ℚ} {b : TokenBucket} : AttemptsFail tokens b [] := by
  intro before r after h
  simp at h

theorem attemptsFail_cons {tokens : ℚ} {b : TokenBucket} {r : Round} {rounds : List Round}
    (hfirst : ((r.beforeAttempt b).refill r.t₁).tokens < tokens)
    (hrest : AttemptsFail tokens (r.passOver b) rounds) : AttemptsFail tokens b (r :: rounds) := by
  intro before r' after h
  cases before with
  | nil =>
    obtain ⟨rfl, rfl⟩ := List.cons.inj h
    exact ⟨hfirst, tryAcquire_of_lt hfirst⟩
  | cons r'' before =>
    obtain ⟨rfl, rfl⟩ := List.cons.inj h
    exact hrest before r' after rfl

/-! ## One round -/

/-- **One iteration.** Either the bucket has the amount, and the call ends with less of it, or the bucket
is passed over, and the call ends or sleeps, with a hundredth of a second left to the deadline. -/
theorem iterate_cases (tokens deadline : ℚ) (block : Bool) (r : Round) (b : TokenBucket) :
    (∃ left, iterate tokens deadline block r b = (.finished .granted, left) ∧
      Deducts tokens b [] r left) ∨
    (((r.beforeAttempt b).refill r.t₁).tokens < tokens ∧
      ((∃ wait, iterate tokens deadline block r b = (.finished (.refused wait), r.passOver b)) ∨
        ∃ duration, iterate tokens deadline block r b = (.sleeps duration, r.passOver b) ∧
          1 / 100 ≤ duration ∧ r.t₃ + 1 / 100 ≤ deadline)) := by
  rcases le_or_gt tokens ((r.beforeAttempt b).refill r.t₁).tokens with hle | hlt
  · have htry := tryAcquire_of_le hle
    refine Or.inl ⟨_, ?_, hle, htry, rfl⟩
    unfold iterate
    rw [htry]
  · refine Or.inr ⟨hlt, ?_⟩
    unfold iterate
    rw [tryAcquire_of_lt hlt]
    dsimp only
    change (∃ wait, ite _ (_, r.passOver b) (_, r.passOver b) = _) ∨
      ∃ duration, ite _ (_, r.passOver b) (_, r.passOver b) = _ ∧ _
    generalize (tokens - _) / _ = share
    split
    · exact Or.inl ⟨_, rfl⟩
    · rename_i hcontinues
      obtain ⟨-, htime⟩ := not_or.mp hcontinues
      have hwait : 1 / 100 ≤ max (1 / 100) share := le_max_left _ _
      have hdeadline := not_lt.mp htime
      exact Or.inr ⟨_, rfl, le_min hwait (by norm_num), by linarith⟩

/-! ## The call -/

theorem acquireRounds_cons {tokens deadline : ℚ} {block : Bool} {b : TokenBucket} {r : Round}
    {rounds : List Round} :
    acquireRounds tokens deadline block b (r :: rounds) =
      match iterate tokens deadline block r b with
      | (.finished a, b) => (a, b)
      | (.sleeps _, b) => acquireRounds tokens deadline block b rounds := (rfl)

theorem obeys_cons {tokens deadline earliest : ℚ} {block : Bool} {b : TokenBucket} {r : Round}
    {rounds : List Round} :
    Obeys tokens deadline block earliest b (r :: rounds) ↔
      earliest ≤ r.t₁ ∧ r.t₁ ≤ r.t₂ ∧ r.t₂ ≤ r.t₃ ∧
        match iterate tokens deadline block r b with
        | (.finished _, _) => True
        | (.sleeps duration, b) => Obeys tokens deadline block (r.t₃ + duration) b rounds := Iff.rfl

/-- **Every round counts**: a call that is still waiting has used up a hundredth of a second with each. -/
theorem length_le_of_waiting {tokens deadline earliest : ℚ} {block : Bool} {b : TokenBucket}
    {rounds : List Round} (hclock : Obeys tokens deadline block earliest b rounds)
    (hwaiting : (acquireRounds tokens deadline block b rounds).1 = .waiting) :
    rounds = [] ∨ rounds.length ≤ 100 * (deadline - earliest) := by
  induction rounds generalizing b earliest with
  | nil => exact Or.inl rfl
  | cons r rounds ih =>
    rw [obeys_cons] at hclock
    rw [acquireRounds_cons] at hwaiting
    obtain ⟨h₁, h₂, h₃, hrest⟩ := hclock
    rcases iterate_cases tokens deadline block r b with
      ⟨left, heq, -⟩ | ⟨-, ⟨wait, heq⟩ | ⟨duration, heq, hduration, hleft⟩⟩
    · rw [heq] at hwaiting
      cases hwaiting
    · rw [heq] at hwaiting
      cases hwaiting
    · rw [heq] at hwaiting hrest
      refine Or.inr ?_
      rw [List.length_cons, Nat.cast_succ]
      rcases ih hrest hwaiting with rfl | hlen
      · rw [List.length_nil, Nat.cast_zero]
        linarith
      · linarith

/-- What a call comes to: with a grant, one attempt took the amount, after others had failed; with a
refusal, and while it waits, every attempt so far has failed and the bucket was passed over. -/
def Acquired.Spec (tokens : ℚ) (b : TokenBucket) (rounds : List Round) (left : TokenBucket) :
    Acquired → Prop
  | .granted => ∃ before r after, rounds = before ++ r :: after ∧
      AttemptsFail tokens b before ∧ Deducts tokens b before r left
  | .refused _ => ∃ before r after, rounds = before ++ r :: after ∧
      AttemptsFail tokens b (before ++ [r]) ∧ left = untouched b (before ++ [r])
  | .waiting => AttemptsFail tokens b rounds ∧ left = untouched b rounds

/-- A failed attempt in front changes nothing of what a call comes to. -/
theorem Acquired.Spec.cons {tokens : ℚ} {b left : TokenBucket} {r : Round} {rounds : List Round}
    {a : Acquired} (hfirst : ((r.beforeAttempt b).refill r.t₁).tokens < tokens)
    (h : a.Spec tokens (r.passOver b) rounds left) : a.Spec tokens b (r :: rounds) left := by
  cases a with
  | granted =>
    obtain ⟨before, r', after, rfl, hfail, hdeducts⟩ := h
    exact ⟨r :: before, r', after, rfl, attemptsFail_cons hfirst hfail, hdeducts⟩
  | refused wait =>
    obtain ⟨before, r', after, rfl, hfail, hleft⟩ := h
    exact ⟨r :: before, r', after, rfl, attemptsFail_cons hfirst hfail, hleft⟩
  | waiting =>
    obtain ⟨hfail, hleft⟩ := h
    exact ⟨attemptsFail_cons hfirst hfail, hleft⟩

/-- **Only the grant takes anything.** -/
theorem acquireRounds_spec {tokens deadline : ℚ} {block : Bool} {b : TokenBucket} {rounds : List Round} :
    (acquireRounds tokens deadline block b rounds).1.Spec tokens b rounds
      (acquireRounds tokens deadline block b rounds).2 := by
  induction rounds generalizing b with
  | nil => exact ⟨attemptsFail_nil, rfl⟩
  | cons r rounds ih =>
    rw [acquireRounds_cons]
    rcases iterate_cases tokens deadline block r b with
      ⟨left, heq, hdeducts⟩ | ⟨hlt, ⟨wait, heq⟩ | ⟨duration, heq, -⟩⟩
    · rw [heq]
      exact ⟨[], r, rounds, rfl, attemptsFail_nil, hdeducts⟩
    · rw [heq]
      exact ⟨[], r, rounds, rfl, attemptsFail_cons hlt attemptsFail_nil, rfl⟩
    · rw [heq]
      exact Acquired.Spec.cons hlt ih

/-- Three readings are a round that nobody interferes with. -/
theorem acquireLoop_eq_iterate {tokens deadline t₁ t₂ t₃ : ℚ} {block : Bool} (b : TokenBucket)
    (rest : List ℚ) :
    acquireLoop tokens deadline block b (t₁ :: t₂ :: t₃ :: rest) =
      match iterate tokens deadline block (Round.alone t₁ t₂ t₃) b with
      | (.finished a, b) => (a, b)
      | (.sleeps _, b) => acquireLoop tokens deadline block b rest := by
  rw [acquireLoop_cons]
  unfold iterate Round.alone
  dsimp only [id]
  generalize b.tryAcquire tokens t₁ = result
  obtain ⟨granted, b₂⟩ := result
  cases granted with
  | true => rfl
  | false =>
    cases block with
    | false => simp only [Bool.not_false, if_true, true_or]
    | true =>
      simp only [Bool.not_true, Bool.false_eq_true, if_false, Bool.true_eq_false, false_or]
      split
      · rfl
      · rfl

/-- The loop over readings is the loop over rounds without other callers. -/
theorem acquireLoop_eq_rounds {tokens deadline : ℚ} {block : Bool} (b : TokenBucket)
    (readings : List (ℚ × ℚ × ℚ)) :
    acquireLoop tokens deadline block b (readings.flatMap fun t => [t.1, t.2.1, t.2.2]) =
      acquireRounds tokens deadline block b (readings.map fun t => Round.alone t.1 t.2.1 t.2.2) := by
  induction readings generalizing b with
  | nil => rfl
  | cons t readings ih =>
    simp only [List.flatMap_cons, List.map_cons, List.cons_append, List.nil_append,
      acquireLoop_eq_iterate]
    rw [acquireRounds_cons]
    generalize iterate tokens deadline block (Round.alone t.1 t.2.1 t.2.2) b = iterated
    obtain ⟨iterated, b'⟩ := iterated
    cases iterated with
    | finished a => rfl
    | sleeps duration => exact ih b'

/-- **`acquire` ends, and is exact.** Whatever is asked for, however long it may wait, and whatever other
callers do to the bucket in between: after more rounds than hundredths of a second to wait the call has
ended; if it returned, all its attempts failed but the last, which took the amount, and the bucket is left
as that attempt left it; if it was refused, all its attempts failed, and the bucket is left as other callers
and refills made it. Where nobody interferes, these are the runs of `acquire` itself. -/
theorem acquire_ends_exact (b : TokenBucket) (t₀ tokens maxWait : ℚ) (block : Bool)
    (rounds : List Round) (hclock : Obeys tokens (t₀ + maxWait) block t₀ b rounds) :
    (⌊100 * maxWait⌋₊ < rounds.length →
      (acquireRounds tokens (t₀ + maxWait) block b rounds).1 ≠ .waiting) ∧
    (∀ left, acquireRounds tokens (t₀ + maxWait) block b rounds = (.granted, left) →
      ∃ before r after, rounds = before ++ r :: after ∧
        AttemptsFail tokens b before ∧ Deducts tokens b before r left) ∧
    (∀ retryAfter left, acquireRounds tokens (t₀ + maxWait) block b rounds = (.refused retryAfter, left) →
      ∃ before r after, rounds = before ++ r :: after ∧
        AttemptsFail tokens b (before ++ [r]) ∧ left = untouched b (before ++ [r])) ∧
    ∀ readings : List (ℚ × ℚ × ℚ), rounds = readings.map (fun t => Round.alone t.1 t.2.1 t.2.2) →
      b.acquire (t₀ :: readings.flatMap fun t => [t.1, t.2.1, t.2.2]) tokens block maxWait =
        acquireRounds tokens (t₀ + maxWait) block b rounds := by
  have hspec := @acquireRounds_spec tokens (t₀ + maxWait) block b rounds
  refine ⟨fun hlong hwaiting => ?_, fun left hgranted => ?_, fun retryAfter left hrefused => ?_,
    fun readings hreadings => ?_⟩
  · rcases length_le_of_waiting hclock hwaiting with rfl | hlen
    · exact absurd hlong (Nat.not_lt_zero _)
    · rw [add_sub_cancel_left] at hlen
      exact absurd (Nat.le_floor hlen) (not_le.mpr hlong)
  · rw [hgranted] at hspec
    exact hspec
  · rw [hrefused] at hspec
    exact hspec
  · rw [hreadings]
    exact acquireLoop_eq_rounds b readings

/-- A full bucket of one token, emptied by another caller before the attempt. -/
def contested : Round where
  beforeAttempt b := { b with tokens := 0 }
  t₁ := 0
  beforeRefill b := b
  t₂ := 0
  t₃ := 0

/-- Another caller takes the only token, which comes back half by half. -/
def comesBack : List Round := [contested, Round.alone (1 / 2) (1 / 2) (1 / 2), Round.alone 1 1 1]

theorem iterate_contested : iterate 1 (0 + 2) true contested oneToken =
    (.sleeps (1 / 2), { oneToken with tokens := 0 }) := by
  unfold iterate
  rw [tryAcquire_of_lt (by norm_num [refill, contested, oneToken])]
  norm_num [refill, contested, oneToken]

theorem iterate_half :
    iterate 1 (0 + 2) true (Round.alone (1 / 2) (1 / 2) (1 / 2)) { oneToken with tokens := 0 } =
      (.sleeps (1 / 2), { oneToken with tokens := 1 / 2, updated := 1 / 2 }) := by
  unfold iterate
  rw [tryAcquire_of_lt (by norm_num [refill, Round.alone, oneToken])]
  norm_num [refill, Round.alone, oneToken]

theorem iterate_whole :
    iterate 1 (0 + 2) true (Round.alone 1 1 1) { oneToken with tokens := 1 / 2, updated := 1 / 2 } =
      (.finished .granted, { oneToken with tokens := 0, updated := 1 }) := by
  unfold iterate
  rw [tryAcquire_of_le (by norm_num [refill, Round.alone, oneToken])]
  norm_num [refill, Round.alone, oneToken]

/-- With less time than the token needs the same call is refused in its first round. -/
theorem iterate_refused : iterate 1 (0 + 1 / 100) true contested oneToken =
    (.finished (.refused 1), { oneToken with tokens := 0 }) := by
  unfold iterate
  rw [tryAcquire_of_lt (by norm_num [refill, contested, oneToken])]
  norm_num [refill, contested, oneToken]

/-- With two seconds to wait, the third attempt has the token; with a hundredth, the call is refused. -/
theorem acquire_ends_exact_contested :
    (acquireRounds 1 (0 + 2) true oneToken comesBack =
        (.granted, { oneToken with tokens := 0, updated := 1 }) ∧
      ∃ before r after, comesBack = before ++ r :: after ∧ AttemptsFail 1 oneToken before ∧
        Deducts 1 oneToken before r { oneToken with tokens := 0, updated := 1 }) ∧
    (acquireRounds 1 (0 + 1 / 100) true oneToken [contested, contested]).1 ≠ .waiting ∧
    acquireRounds 1 (0 + 1 / 100) true oneToken [contested, contested] =
        (.refused 1, { oneToken with tokens := 0 }) ∧
      ∃ before r after, [contested, contested] = before ++ r :: after ∧
        AttemptsFail 1 oneToken (before ++ [r]) ∧
        { oneToken with tokens := 0 } = untouched oneToken (before ++ [r]) := by
  have hclock : Obeys 1 (0 + 2) true 0 oneToken comesBack := by
    simp only [comesBack, obeys_cons, iterate_contested, iterate_half, iterate_whole]
    norm_num [contested, Round.alone]
  have hgranted : acquireRounds 1 (0 + 2) true oneToken comesBack =
      (.granted, { oneToken with tokens := 0, updated := 1 }) := by
    simp only [comesBack, acquireRounds_cons, iterate_contested, iterate_half, iterate_whole]
  have hshort : Obeys 1 (0 + 1 / 100) true 0 oneToken [contested, contested] := by
    simp only [obeys_cons, iterate_refused]
    norm_num [contested]
  have hrefused : acquireRounds 1 (0 + 1 / 100) true oneToken [contested, contested] =
      (.refused 1, { oneToken with tokens := 0 }) := by
    simp only [acquireRounds_cons, iterate_refused]
  have hfloor : ⌊100 * (1 / 100 : ℚ)⌋₊ < [contested, contested].length := by
    rw [show (100 * (1 / 100) : ℚ) = (1 : Nat) by norm_num, Nat.floor_natCast]
    decide
  have hrun := acquire_ends_exact oneToken 0 1 (1 / 100) true _ hshort
  exact ⟨⟨hgranted, (acquire_ends_exact oneToken 0 1 2 true _ hclock).2.1 _ hgranted⟩,
    hrun.1 hfloor, hrefused, hrun.2.2.1 _ _ hrefused⟩

end TokenBucket

end FlopOffice.Technocore
