/-
# FlopOffice.Technocore.SessionRuns — what a client sends in a minute.

While a budget stands, a window of a minute sees no more than a full bucket of requests, its refill and what
the roundings gain, which stays within what the server advertises where the roundings have room for it
(`limits_kept`). For a limit of two or more they have, up to some 2^50 readings of the clock in the minute
(`Roomy.of_two_le`); for a limit of one they have not where two readings lie a hair under a minute apart
(`rounding_exceeds`). A discovery that is repeated gives back what it and the others have used
(`discoveries_unlimited`).
-/
import FlopOffice.Technocore.Budget

namespace FlopOffice.Technocore

open FlopOffice.Identity FlopOffice.Lib FlopOffice.Python

/-! ## What a session keeps -/

theorem doubleError_nonneg : 0 ≤ doubleError := zpow_nonneg (by norm_num) _

theorem doubleTiny_nonneg : 0 ≤ doubleTiny := zpow_nonneg (by norm_num) _

theorem doubleTiny_le : 60 * doubleTiny ≤ doubleError := by
  have hpow : (2 : ℚ) ^ (-1069 : ℤ) ≤ 2 ^ (-53 : ℤ) := zpow_le_zpow_right₀ one_le_two (by decide)
  have hsplit : (2 : ℚ) ^ (-1069 : ℤ) = 2 ^ (6 : ℤ) * doubleTiny := zpow_add₀ two_ne_zero 6 (-1074 - 1)
  have hpos := doubleTiny_nonneg
  rw [hsplit] at hpow
  unfold doubleError
  linarith

theorem one_le_sizeFor (limit : Int) : 1 ≤ sizeFor limit := one_le_floatCeiling _

theorem sizeFor_of_two_le {limit : Int} (htwo : 2 ≤ limit) (hsmall : limit.natAbs < 2 ^ 53) :
    sizeFor limit = limit * SAFETY_FACTOR := by
  have htwo' : (2 : ℚ) ≤ limit := by exact_mod_cast htwo
  unfold sizeFor floatCeiling
  rw [roundDouble_intCast hsmall]
  exact max_eq_right (by unfold SAFETY_FACTOR; linarith)

/-- A second refills a sixtieth of the bucket, but for the rounding. -/
theorem rateFor_le (limit : Int) :
    rateFor limit ≤ sizeFor limit / 60 * (1 + doubleError) + doubleTiny :=
  roundDouble_rounds.le (div_nonneg (zero_le_one.trans (one_le_sizeFor limit)) (by norm_num))

theorem doubleError_le : doubleError ≤ 1 / 16 := by
  have hpow : (2 : ℚ) ^ (-53 : ℤ) ≤ 2 ^ (-4 : ℤ) := zpow_le_zpow_right₀ one_le_two (by decide)
  unfold doubleError
  norm_num at hpow ⊢

/-- **Floats are fine enough** for the buckets of a budget. -/
theorem TokenBucket.Sized.fine {b : TokenBucket} {limit : Int} (h : b.Sized limit) :
    b.Fine doubleError doubleTiny := by
  have hone := one_le_sizeFor limit
  have hrate := rateFor_le limit
  have hsmall := doubleError_le
  have htiny := doubleTiny_le
  have hpos := doubleTiny_nonneg
  have hpart : sizeFor limit / 60 * doubleError ≤ sizeFor limit / 60 * (1 / 16) :=
    mul_le_mul_of_nonneg_left hsmall (by linarith)
  have hle : rateFor limit + 1 ≤ 2 * sizeFor limit := by linarith
  refine ⟨doubleError_nonneg, hsmall, hpos, ?_⟩
  rw [h.capacity, h.refillPerSecond]
  calc 4 * doubleTiny * (rateFor limit + 1) ≤ 4 * doubleTiny * (2 * sizeFor limit) :=
        mul_le_mul_of_nonneg_left hle (by linarith)
    _ = 8 * doubleTiny * sizeFor limit := by ring
    _ ≤ doubleError * sizeFor limit := mul_le_mul_of_nonneg_right (by linarith) (by linarith)

namespace Session

/-- The times of the requests of one kind that one budget granted. -/
def grants (s : Session) (kind : Kind) (g : Nat) : List ℚ :=
  (s.sent.filter fun q => q.kind = kind ∧ q.budget = g).map SentRequest.time

/-- What the readings for one bucket gain, where the limit is `limit`. -/
def gains (s : Session) (kind : Kind) (limit : Int) : List (ℚ × ℚ) :=
  (s.readings kind).map fun t => (t, 6 * doubleError * sizeFor limit)

/-- **The invariant of a session** at the time `now`: its buckets are sized for the limits and account for
the requests they granted, at readings of the clock; and no budget so far has granted more than its pace. -/
structure Keeps (r w : Int) (s : Session) (now : ℚ) : Prop where
  sized : ∀ kind, (s.budget.bucket kind).Sized (kind.limit r w)
  fits : ∀ kind, (s.budget.bucket kind).Fits doubleError (s.readings kind) (s.grants kind s.replaced)
  updated_le : ∀ kind, (s.budget.bucket kind).updated ≤ now
  paced : ∀ kind g, Bucket.Paced (sizeFor (kind.limit r w)) (rateFor (kind.limit r w))
    (s.gains kind (kind.limit r w)) (s.grants kind g)
  budget_le : ∀ q ∈ s.sent, q.budget ≤ s.replaced
  read : ∀ kind g, ∀ t ∈ s.grants kind g, t ∈ s.readings kind

theorem grants_request_self (s : Session) (kind : Kind) :
    (s.request kind).grants kind s.replaced =
      s.grants kind s.replaced ++ [(s.budget.bucket kind).updated] := by
  unfold grants request
  rw [List.filter_append, List.map_append]
  congr 1
  rw [List.filter_cons, if_pos (by simp)]
  rfl

theorem grants_request_other {s : Session} {kind kind' : Kind} {g : Nat}
    (h : ¬(kind' = kind ∧ g = s.replaced)) : (s.request kind).grants kind' g = s.grants kind' g := by
  unfold grants request
  have hnone : ¬(kind = kind' ∧ s.replaced = g) := fun hk => h ⟨hk.1.symm, hk.2.symm⟩
  rw [List.filter_append, List.map_append, List.filter_cons, if_neg (by simpa using hnone)]
  exact List.append_nil _

theorem readings_asked_self (s : Session) (m : Moment) (kind : Kind) (b : TokenBucket) :
    (s.asked m kind b).readings kind = s.readings kind ++ m.readings := by
  have hall : (m.readings.map fun t => (kind, t)).filter (fun q => q.1 = kind) =
      m.readings.map fun t => (kind, t) :=
    List.filter_eq_self.mpr fun q hq => by
      obtain ⟨t, -, rfl⟩ := List.mem_map.mp hq
      exact decide_eq_true rfl
  unfold readings asked
  dsimp only
  rw [List.filter_append, hall, List.map_append, List.map_map]
  exact congrArg _ (List.map_id _)

theorem readings_asked_other {s : Session} {m : Moment} {kind kind' : Kind} (h : kind' ≠ kind)
    (b : TokenBucket) : (s.asked m kind b).readings kind' = s.readings kind' := by
  have hnone : (m.readings.map fun t => (kind, t)).filter (fun q => q.1 = kind') = [] :=
    List.filter_eq_nil_iff.mpr fun q hq => by
      obtain ⟨t, -, rfl⟩ := List.mem_map.mp hq
      simpa using fun heq => h heq.symm
  unfold readings asked
  dsimp only
  rw [List.filter_append, hnone, List.append_nil]

/-- The readings so far stay. -/
theorem readings_sublist_asked (s : Session) (m : Moment) (kind kind' : Kind) (b : TokenBucket) :
    (s.readings kind').Sublist ((s.asked m kind b).readings kind') := by
  by_cases hk : kind' = kind
  · subst hk
    rw [readings_asked_self]
    exact List.sublist_append_left _ _
  · rw [readings_asked_other hk]

/-- More readings leave more room. -/
theorem paced_of_sublist {s s' : Session} {kind : Kind} {limit : Int} {capacity rate : ℚ} {times : List ℚ}
    (h : Bucket.Paced capacity rate (s.gains kind limit) times)
    (hsub : (s.readings kind).Sublist (s'.readings kind)) :
    Bucket.Paced capacity rate (s'.gains kind limit) times := by
  refine h.mono fun a e => ?_
  have hle : Bucket.between (s.readings kind) a e ≤ Bucket.between (s'.readings kind) a e :=
    hsub.countP_le
  have hgain : 0 ≤ 6 * doubleError * sizeFor limit := mul_nonneg
    (mul_nonneg (by norm_num) doubleError_nonneg) (zero_le_one.trans (one_le_sizeFor limit))
  unfold gains
  rw [Bucket.granted_map_const, Bucket.granted_map_const]
  exact mul_le_mul_of_nonneg_right (by exact_mod_cast hle) hgain

/-- Time passes. -/
theorem Keeps.mono {r w : Int} {s : Session} {now now' : ℚ} (h : s.Keeps r w now) (hle : now ≤ now') :
    s.Keeps r w now' :=
  { h with updated_le := fun kind => (h.updated_le kind).trans hle }

/-- A bucket that has been asked and still accounts for the requests it granted. -/
theorem Keeps.asked {r w : Int} {s : Session} {m : Moment} {now last : ℚ} {kind : Kind} {b : TokenBucket}
    (h : s.Keeps r w now) (hnow : now ≤ last)
    (hb : (s.budget.bucket kind).Becomes doubleError b (s.readings kind ++ m.readings)
      (s.grants kind s.replaced) last) :
    (s.asked m kind b).Keeps r w last where
  sized kind' := by
    by_cases hk : kind' = kind
    · subst hk
      unfold Session.asked
      rw [Budget.bucket_setBucket_self]
      exact ⟨hb.capacity.trans (h.sized kind').capacity,
        hb.refillPerSecond.trans (h.sized kind').refillPerSecond⟩
    · unfold Session.asked
      rw [Budget.bucket_setBucket_ne hk]
      exact h.sized kind'
  fits kind' := by
    by_cases hk : kind' = kind
    · subst hk
      rw [readings_asked_self]
      unfold Session.asked
      rw [Budget.bucket_setBucket_self]
      exact hb.fits
    · rw [readings_asked_other hk]
      unfold Session.asked
      rw [Budget.bucket_setBucket_ne hk]
      exact h.fits kind'
  updated_le kind' := by
    by_cases hk : kind' = kind
    · subst hk
      unfold Session.asked
      rw [Budget.bucket_setBucket_self]
      exact hb.updated_le
    · unfold Session.asked
      rw [Budget.bucket_setBucket_ne hk]
      exact (h.updated_le kind').trans hnow
  paced kind' g := paced_of_sublist (h.paced kind' g) (readings_sublist_asked s m kind kind' b)
  budget_le := h.budget_le
  read kind' g t ht := (readings_sublist_asked s m kind kind' b).subset (h.read kind' g t ht)

/-- A request that its bucket has accounted for already. -/
theorem Keeps.request {r w : Int} {s : Session} {now : ℚ} {kind : Kind} (h : s.Keeps r w now)
    (hread : (s.budget.bucket kind).updated ∈ s.readings kind)
    (hfits : (s.budget.bucket kind).Fits doubleError (s.readings kind)
      (s.grants kind s.replaced ++ [(s.budget.bucket kind).updated])) :
    (s.request kind).Keeps r w now where
  sized := h.sized
  fits kind' := by
    show (s.budget.bucket kind').Fits doubleError (s.readings kind')
      ((s.request kind).grants kind' s.replaced)
    by_cases hk : kind' = kind
    · subst hk
      rw [grants_request_self]
      exact hfits
    · rw [grants_request_other fun hboth => hk hboth.1]
      exact h.fits kind'
  updated_le := h.updated_le
  paced kind' g := by
    by_cases hk : kind' = kind ∧ g = s.replaced
    · obtain ⟨rfl, rfl⟩ := hk
      have hpaced := Bucket.Meters.paced_unit hfits
      rw [(h.sized kind').capacity, (h.sized kind').refillPerSecond] at hpaced
      rw [grants_request_self]
      exact hpaced
    · rw [grants_request_other hk]
      exact h.paced kind' g
  budget_le q hq := by
    rcases List.mem_append.mp hq with hq | hq
    · exact h.budget_le q hq
    · rw [List.mem_singleton.mp hq]
      exact le_refl _
  read kind' g t ht := by
    by_cases hk : kind' = kind ∧ g = s.replaced
    · obtain ⟨rfl, rfl⟩ := hk
      rw [grants_request_self] at ht
      rcases List.mem_append.mp ht with ht | ht
      · exact h.read kind' _ t ht
      · rw [List.mem_singleton.mp ht]
        exact hread
    · rw [grants_request_other hk] at ht
      exact h.read kind' g t ht

/-- **A token** is paid for, whether the request it was for goes out or not. -/
theorem Keeps.acquire {r w : Int} {s s' : Session} {m : Moment} {kind : Kind} {now last : ℚ}
    {acquired : Except Exc Unit} (h : s.Keeps r w now) (hsorted : (now :: m.readings).Pairwise (· ≤ ·))
    (hlast : ∀ t ∈ now :: m.readings, t ≤ last)
    (hacquire : s.acquire m kind = some (acquired, s')) :
    s'.Keeps r w last ∧ (acquired = .ok () → (s'.request kind).Keeps r w last) := by
  have hupdated := h.updated_le kind
  obtain ⟨hfirst, hreadings⟩ := List.pairwise_cons.mp hsorted
  have hsorted' : ((s.budget.bucket kind).updated :: m.readings).Pairwise (· ≤ ·) :=
    List.pairwise_cons.mpr ⟨fun t ht => hupdated.trans (hfirst t ht), hreadings⟩
  have hlast' : ∀ t ∈ (s.budget.bucket kind).updated :: m.readings, t ≤ last := by
    intro t ht
    rcases List.mem_cons.mp ht with rfl | ht
    · exact hupdated.trans (hlast now List.mem_cons_self)
    · exact hlast t (List.mem_cons_of_mem _ ht)
  have hnow : now ≤ last := hlast now List.mem_cons_self
  obtain ⟨b, rfl, ⟨hb, rfl⟩ | ⟨t, hb, rfl⟩⟩ := Session.acquire_eq_some.mp hacquire
  · have hbecomes := (h.fits kind).acquireBy roundDouble_rounds (h.sized kind).fine hsorted' hlast' hb
    rw [if_pos rfl] at hbecomes
    have hkeeps := h.asked hnow ⟨hbecomes.capacity, hbecomes.refillPerSecond,
      hbecomes.fits.of_append, hbecomes.updated_le⟩
    have hbucket : (s.asked m kind b).budget.bucket kind = b := Budget.bucket_setBucket_self _ _ _
    refine ⟨hkeeps, fun _ => hkeeps.request ?_ ?_⟩
    · rw [hbucket, readings_asked_self]
      exact List.mem_append_right _ (TokenBucket.acquireBy_granted roundDouble hb)
    · rw [hbucket, readings_asked_self]
      exact hbecomes.fits
  · have hbecomes := (h.fits kind).acquireBy roundDouble_rounds (h.sized kind).fine hsorted' hlast' hb
    rw [if_neg nofun] at hbecomes
    exact ⟨h.asked hnow hbecomes, nofun⟩

/-- **A new budget** has granted nothing yet. -/
theorem Keeps.replace {r w : Int} {s s' : Session} {now last readsAt writesAt : ℚ}
    {answer : Except Exc Budget} (h : s.Keeps r w now) (hreads : readsAt ≤ last)
    (hwrites : writesAt ≤ last) (hnow : now ≤ last)
    (hreplace : s.replace (Budget.fromAdvertisedFloat r w readsAt writesAt) = (answer, s')) :
    s'.Keeps r w last := by
  cases hmade : Budget.fromAdvertisedFloat r w readsAt writesAt with
  | error e =>
    rw [hmade] at hreplace
    cases hreplace
    exact h.mono hnow
  | ok b =>
    rw [hmade] at hreplace
    cases hreplace
    obtain ⟨f, g, -, -, hfull⟩ := Budget.fromAdvertisedFloat_eq_ok hmade
    have hnone : ∀ kind, Session.grants { s with budget := b, replaced := s.replaced + 1 } kind
        (s.replaced + 1) = [] := by
      intro kind
      unfold grants
      rw [List.map_eq_nil_iff, List.filter_eq_nil_iff]
      intro q hq
      have hle := h.budget_le q hq
      simp only [decide_eq_true_eq]
      omega
    refine ⟨fun kind => (hfull kind).1, fun kind => ?_, fun kind => ?_, h.paced, fun q hq => ?_, h.read⟩
    · show (b.bucket kind).Fits doubleError _ (Session.grants _ kind (s.replaced + 1))
      rw [hnone]
      exact TokenBucket.fits_full doubleError_nonneg (hfull kind).2.1 _
    · rcases (hfull kind).2.2 with hat | hat
      · exact hat ▸ hreads
      · exact hat ▸ hwrites
    · exact (h.budget_le q hq).trans (Nat.le_succ _)

/-- Requests of one budget are among those it granted. -/
theorem inWindow_times_le {s : Session} {kind : Kind} {a : ℚ} {g : Nat}
    (h : ∀ q ∈ s.sent, q.kind = kind → a ≤ q.time → q.time < a + 60 → q.budget = g) :
    Bucket.inWindow (s.times kind) a (a + 60) ≤ Bucket.inWindow (s.grants kind g) a (a + 60) := by
  unfold Bucket.inWindow times grants
  rw [List.countP_map, List.countP_map, List.countP_filter, List.countP_filter]
  refine List.countP_mono_left fun q hq hin => ?_
  simp only [Function.comp_apply, Bool.and_eq_true, decide_eq_true_eq] at hin ⊢
  obtain ⟨⟨hfrom, hto⟩, hkind⟩ := hin
  exact ⟨⟨hfrom, hto⟩, hkind, h q hq hkind hfrom hto⟩

theorem Keeps.get {r w : Int} {s s' : Session} {m : Moment} {now last : ℚ}
    {acquired : Except Exc Unit} (h : s.Keeps r w now) (hsorted : (now :: m.readings).Pairwise (· ≤ ·))
    (hlast : ∀ t ∈ now :: m.readings, t ≤ last) (hget : s.get m = some (acquired, s')) :
    s'.Keeps r w last := by
  obtain ⟨⟨asked, s₁⟩, hacquire, hanswer⟩ := Option.map_eq_some_iff.mp hget
  obtain ⟨hkeeps, hrequest⟩ := h.acquire hsorted hlast hacquire
  cases asked with
  | ok u =>
    cases hanswer
    exact hrequest rfl
  | error e =>
    cases hanswer
    exact hkeeps

/-- **A window of one budget** sees less than the next request, where the roundings have room. -/
theorem Keeps.inWindow_grants_le {r w : Int} {s : Session} {now a : ℚ} {kind : Kind}
    (h : s.Keeps r w now) (hlimit : 0 ≤ kind.limit r w) (hroom : s.Roomy kind (kind.limit r w) a)
    (g : Nat) : (Bucket.inWindow (s.grants kind g) a (a + 60) : Int) ≤ kind.limit r w := by
  by_cases hnone : Bucket.inWindow (s.grants kind g) a (a + 60) = 0
  · rw [hnone]
    exact hlimit
  obtain ⟨t, ht, t', ht', hat, htt', htb, hcount⟩ := Bucket.exists_span hnone
  have hread := h.read kind g t ht
  have hroom' := hroom t hread t' (h.read kind g t' ht') hat htt' htb
  have hpaced := h.paced kind g t t' htt'
  unfold gains at hpaced
  rw [← hcount, Bucket.granted_map_const] at hpaced
  -- the readings between the first and the last request are among those of the minute
  have hbetween : Bucket.between (s.readings kind) t t' ≤
      Bucket.inWindow (s.readings kind) a (a + 60) := by
    refine List.countP_mono_left fun x _ hx => ?_
    obtain ⟨htx, hxt⟩ := of_decide_eq_true hx
    exact decide_eq_true ⟨hat.trans htx, lt_of_le_of_lt hxt htb⟩
  have hsome : 1 ≤ Bucket.inWindow (s.readings kind) a (a + 60) :=
    List.countP_pos_iff.mpr ⟨t, hread, decide_eq_true ⟨hat, lt_of_le_of_lt htt' htb⟩⟩
  have hbetween' : (Bucket.between (s.readings kind) t t' : ℚ) ≤
      Bucket.inWindow (s.readings kind) a (a + 60) := by exact_mod_cast hbetween
  have hsome' : (1 : ℚ) ≤ Bucket.inWindow (s.readings kind) a (a + 60) := by exact_mod_cast hsome
  generalize (Bucket.inWindow (s.readings kind) a (a + 60) : ℚ) = n at hroom' hbetween' hsome'
  have hone := one_le_sizeFor (kind.limit r w)
  have hrate := rateFor_le (kind.limit r w)
  generalize sizeFor (kind.limit r w) = size at hroom' hpaced hone hrate
  have herror := doubleError_nonneg
  have htiny := doubleTiny_le
  have hunit : 0 ≤ doubleError * size := mul_nonneg herror (by linarith)
  -- what the rounding of the rate and the gains of the readings come to
  have hrefill : rateFor (kind.limit r w) * (t' - t) ≤ size * ((t' - t) / 60) + 2 * (doubleError * size) := by
    have hspan : 0 ≤ t' - t := sub_nonneg.mpr htt'
    have hless : t' - t ≤ 60 := by linarith
    calc rateFor (kind.limit r w) * (t' - t)
        ≤ (size / 60 * (1 + doubleError) + doubleTiny) * (t' - t) :=
          mul_le_mul_of_nonneg_right hrate hspan
      _ = size * ((t' - t) / 60) + (doubleError * size / 60 + doubleTiny) * (t' - t) := by ring
      _ ≤ size * ((t' - t) / 60) + (doubleError * size / 60 + doubleTiny) * 60 :=
          add_le_add_right (mul_le_mul_of_nonneg_left hless
            (add_nonneg (div_nonneg hunit (by norm_num)) doubleTiny_nonneg)) _
      _ ≤ size * ((t' - t) / 60) + 2 * (doubleError * size) := by
        have hsmall : doubleError ≤ doubleError * size := le_mul_of_one_le_right herror hone
        have hsixty : 60 * doubleTiny ≤ doubleError := doubleTiny_le
        linarith
  have hgains : Bucket.between (s.readings kind) t t' * (6 * doubleError * size) ≤
      6 * n * (doubleError * size) := by
    have hmul := mul_le_mul_of_nonneg_right hbetween' hunit
    linarith
  have hfirst : 2 * (doubleError * size) ≤ 2 * n * (doubleError * size) := by
    have hmul := mul_le_mul_of_nonneg_right hsome' hunit
    linarith
  have hlt : (Bucket.inWindow (s.grants kind g) a (a + 60) : ℚ) < kind.limit r w + 1 := by
    calc (Bucket.inWindow (s.grants kind g) a (a + 60) : ℚ)
        ≤ size + rateFor (kind.limit r w) * (t' - t) +
            Bucket.between (s.readings kind) t t' * (6 * doubleError * size) := hpaced
      _ ≤ size * (1 + (t' - t) / 60 + 8 * doubleError * n) := by linarith
      _ < kind.limit r w + 1 := hroom'
  exact Int.lt_add_one_iff.mp (by exact_mod_cast hlt)

/-- **Two or more a minute**: the roundings have room for some 2^50 readings of the clock. -/
theorem Roomy.of_two_le {s : Session} {kind : Kind} {limit : Int} {a : ℚ} (htwo : 2 ≤ limit)
    (hfew : limit * (Bucket.inWindow (s.readings kind) a (a + 60) + 1) ≤ 2 ^ 50) :
    s.Roomy kind limit a := by
  intro t _ t' _ hat htt' htb
  have hcast : (limit : ℚ) * (Bucket.inWindow (s.readings kind) a (a + 60) + 1) ≤ 2 ^ 50 := by
    exact_mod_cast hfew
  have hbelow : limit ≤ limit * (Bucket.inWindow (s.readings kind) a (a + 60) + 1) :=
    le_mul_of_one_le_right (by omega) (by omega)
  have htwo' : (2 : ℚ) ≤ limit := by exact_mod_cast htwo
  have hspan : (limit : ℚ) * ((t' - t) / 60) < limit * 1 :=
    mul_lt_mul_of_pos_left (by linarith) (by linarith)
  have hsplit : doubleError * 2 ^ 53 = 1 := by
    unfold doubleError
    norm_num
  have herror := mul_le_mul_of_nonneg_left hcast doubleError_nonneg
  have hunit := mul_nonneg doubleError_nonneg (by linarith : (0 : ℚ) ≤ limit)
  rw [sizeFor_of_two_le htwo (by omega)]
  unfold SAFETY_FACTOR
  linarith

/-! ## Runs -/

section Calls

variable [PyRuntime] [PyBuiltins]

omit [PyBuiltins] in
/-- A discovery that gets a token replaces the budget by one of the advertised size. -/
theorem discoverLimits_spec {r w : Int} {s s' : Session} {m : Moment} {answer : Except Exc Budget}
    (hserver : m.Advertises r w) (h : s.discoverLimits m = some (answer, s')) :
    ∃ acquired s₁, s.get m = some (acquired, s₁) ∧
      ((acquired = .ok () ∧
          s₁.replace (Budget.fromAdvertisedFloat r w m.readsAt m.writesAt) = (answer, s')) ∨
        ∃ e, acquired = .error e ∧ answer = .error e ∧ s' = s₁) := by
  obtain ⟨response, data, hresponse, hstatus, hjson, hlimits⟩ := hserver
  obtain ⟨⟨acquired, s₁⟩, hget, hanswer⟩ := Option.map_eq_some_iff.mp h
  refine ⟨acquired, s₁, hget, ?_⟩
  cases acquired with
  | ok u =>
    refine Or.inl ⟨rfl, ?_⟩
    have hbody : (m.surface (.ok u)).get (py "/.well-known/agent.json") [] >>= Response.json = .ok data := by
      unfold Surface.get Moment.surface
      dsimp only
      rw [hresponse]
      show (if response.statusCode = 429 then _ else if response.statusCode ≥ 400 then _ else
        Except.ok response) >>= Response.json = _
      rw [if_neg (by omega), if_neg (by omega)]
      exact hjson
    dsimp only at hanswer
    rw [hbody] at hanswer
    dsimp only at hanswer
    rw [hlimits] at hanswer
    exact hanswer
  | error e =>
    refine Or.inr ⟨e, rfl, ?_⟩
    have hcls : e.cls = .rateLimitExceeded := by
      obtain ⟨⟨asked, s₂⟩, hacquire, heq⟩ := Option.map_eq_some_iff.mp hget
      obtain ⟨b, rfl, ⟨-, rfl⟩ | ⟨t, -, rfl⟩⟩ := Session.acquire_eq_some.mp hacquire
      · cases heq
      · cases heq
        rfl
    have hbody : (m.surface (.error e)).get (py "/.well-known/agent.json") [] >>= Response.json =
        .error e := rfl
    dsimp only at hanswer
    rw [hbody] at hanswer
    dsimp only at hanswer
    rw [hcls] at hanswer
    cases hanswer
    exact ⟨rfl, rfl⟩

variable [Ed25519]

/-- **Every call** keeps the accounts. -/
theorem Keeps.after {r w : Int} {s s' : Session} {m : Moment} {c : Call} {now : ℚ}
    (h : s.Keeps r w now) (hclock : m.Follows now) (hserver : m.Advertises r w)
    (hafter : s.after m c = some s') : s'.Keeps r w m.writesAt := by
  obtain ⟨hsorted, hlater, hbefore⟩ := List.pairwise_append.mp hclock
  have hlast : ∀ t ∈ now :: m.readings, t ≤ m.writesAt := fun t ht =>
    hbefore t ht m.writesAt (List.mem_cons_of_mem _ List.mem_cons_self)
  have hreads : m.readsAt ≤ m.writesAt :=
    (List.pairwise_cons.mp hlater).1 m.writesAt List.mem_cons_self
  have hwait : s.Keeps r w m.writesAt := h.mono (hlast now List.mem_cons_self)
  cases c with
  | readRoom room since limit =>
    obtain ⟨⟨answer, s₁⟩, hcall, rfl⟩ := Option.map_eq_some_iff.mp hafter
    unfold Session.readRoom at hcall
    split at hcall
    · cases hcall
      exact hwait
    · obtain ⟨⟨acquired, s₂⟩, hget, heq⟩ := Option.map_eq_some_iff.mp hcall
      cases heq
      exact h.get hsorted hlast hget
  | listRooms =>
    obtain ⟨⟨answer, s₁⟩, hcall, rfl⟩ := Option.map_eq_some_iff.mp hafter
    obtain ⟨⟨acquired, s₂⟩, hget, heq⟩ := Option.map_eq_some_iff.mp hcall
    cases heq
    exact h.get hsorted hlast hget
  | discoverLimits =>
    obtain ⟨⟨answer, s₁⟩, hcall, rfl⟩ := Option.map_eq_some_iff.mp hafter
    obtain ⟨acquired, s₂, hget, ⟨-, hreplace⟩ | ⟨e, -, -, rfl⟩⟩ := discoverLimits_spec hserver hcall
    · exact (h.get hsorted hlast hget).replace hreads (le_refl _) (le_refl _) hreplace
    · exact h.get hsorted hlast hget
  | sendSignedMessage client write guard =>
    obtain ⟨⟨answer, s₁⟩, hcall, rfl⟩ := Option.map_eq_some_iff.mp hafter
    unfold Session.sendSignedMessage at hcall
    split at hcall
    · cases hcall
      exact hwait
    · cases hcall
      exact hwait
    split at hcall
    · cases hcall
      exact hwait
    obtain ⟨⟨acquired, s₂⟩, hacquire, heq⟩ := Option.map_eq_some_iff.mp hcall
    obtain ⟨hkeeps, hrequest⟩ := h.acquire hsorted hlast hacquire
    cases acquired with
    | error e =>
      cases heq
      exact hkeeps
    | ok u =>
      dsimp only at heq
      split at heq
      · cases heq
        exact hkeeps
      · cases heq
        exact hrequest rfl

/-- **Every run** keeps them. -/
theorem Keeps.run {r w : Int} {s s' : Session} (h : s.Keeps r w s.now)
    (hrun : Relation.ReflTransGen (Session.Step r w) s s') : s'.Keeps r w s'.now := by
  induction hrun with
  | refl => exact h
  | tail _ hstep ih =>
    obtain ⟨m, c, s₁, hclock, hserver, hafter, rfl⟩ := hstep
    obtain ⟨sized, fits, updated_le, paced, budget_le, read⟩ := ih.after hclock hserver hafter
    exact ⟨sized, fits, updated_le, paced, budget_le, read⟩

omit [PyBuiltins] [Ed25519] in
/-- The first discovery leaves full buckets, and no accounts. -/
theorem Discovered.full {r w : Int} {s : Session} (h : s.Discovered r w) :
    s.sent = [] ∧ s.seen = [] ∧ (∃ f, floatOfInt r = .ok f) ∧ (∃ g, floatOfInt w = .ok g) ∧
      ∀ kind, (s.budget.bucket kind).Sized (kind.limit r w) ∧
        (s.budget.bucket kind).tokens = (s.budget.bucket kind).capacity ∧
        (s.budget.bucket kind).updated ≤ s.now := by
  obtain ⟨m, s₀, s₁, b, hclock, hserver, hcall, rfl⟩ := h
  obtain ⟨-, hlater, -⟩ := List.pairwise_append.mp hclock
  have hreads : m.readsAt ≤ m.writesAt :=
    (List.pairwise_cons.mp hlater).1 m.writesAt List.mem_cons_self
  obtain ⟨acquired, s₂, -, ⟨-, hreplace⟩ | ⟨e, -, he, -⟩⟩ := discoverLimits_spec hserver hcall
  · cases hmade : Budget.fromAdvertisedFloat r w m.readsAt m.writesAt with
    | error e =>
      rw [hmade] at hreplace
      cases hreplace
    | ok b' =>
      rw [hmade] at hreplace
      cases hreplace
      obtain ⟨f, g, hf, hg, hfull⟩ := Budget.fromAdvertisedFloat_eq_ok hmade
      refine ⟨rfl, rfl, ⟨f, hf⟩, ⟨g, hg⟩, fun kind => ⟨(hfull kind).1, (hfull kind).2.1, ?_⟩⟩
      rcases (hfull kind).2.2 with hat | hat
      · exact hat ▸ hreads
      · exact hat ▸ le_refl m.writesAt
  · cases he

omit [PyBuiltins] [Ed25519] in
theorem Discovered.keeps {r w : Int} {s : Session} (h : s.Discovered r w) : s.Keeps r w s.now := by
  obtain ⟨hsent, hseen, -, -, hfull⟩ := h.full
  have hnone : ∀ kind g, s.grants kind g = [] := fun kind g => by
    unfold grants
    rw [hsent]
    rfl
  refine ⟨fun kind => (hfull kind).1, fun kind => ?_, fun kind => (hfull kind).2.2, fun kind g => ?_,
    fun q hq => ?_, fun kind g t ht => ?_⟩
  · rw [hnone]
    exact TokenBucket.fits_full doubleError_nonneg (hfull kind).2.1 _
  · have hone := one_le_sizeFor (kind.limit r w)
    have hrate : 0 < rateFor (kind.limit r w) := rate_pos _
    rw [hnone]
    unfold gains readings
    rw [hseen]
    exact Bucket.paced_nil (by linarith) hrate.le nofun
  · rw [hsent] at hq
    cases hq
  · rw [hnone] at ht
    cases ht

/-- **The limits are kept** in every minute whose requests were granted by one budget and in which the
roundings have room: after the first discovery, and whatever the calls and whenever they are made, no more
than the server advertises. -/
theorem limits_kept {r w : Int} (hr : 1 ≤ r) (hw : 1 ≤ w) {s₀ s : Session} (hstart : s₀.Discovered r w)
    (hrun : Relation.ReflTransGen (Session.Step r w) s₀ s) (kind : Kind) (a : ℚ)
    (hone : s.OneBudget kind a) (hroom : s.Roomy kind (kind.limit r w) a) :
    (Bucket.inWindow (s.times kind) a (a + 60) : Int) ≤ kind.limit r w := by
  obtain ⟨g, hg⟩ := hone
  have hlimit : 0 ≤ kind.limit r w := by
    cases kind with
    | read => exact zero_le_one.trans hr
    | write => exact zero_le_one.trans hw
  have hcount := (hstart.keeps.run hrun).inWindow_grants_le hlimit hroom g
  have hle := inWindow_times_le hg
  omega

/-! ## Calls that are granted -/

/-- A read that is granted, as a step. -/
theorem Step.listRooms {r w : Int} {s : Session} {m : Moment} {b : TokenBucket}
    (hclock : m.Follows s.now) (hserver : m.Advertises r w)
    (h : s.budget.reads.acquireBy roundDouble m.readings = (.granted, b)) :
    Session.Step r w s { (s.asked m .read b).request .read with now := m.writesAt } := by
  refine ⟨m, .listRooms, _, hclock, hserver, ?_, rfl⟩
  unfold Session.after Session.listRooms
  rw [get_of_granted h]
  rfl

omit [PyBuiltins] [Ed25519] in
/-- A discovery by a full bucket leaves a full bucket, and a request more. -/
theorem discoverLimits_full {r w : Int} {f g : ℚ} (hr : floatOfInt r = .ok f) (hw : floatOfInt w = .ok g)
    {s : Session} {m : Moment} {t : ℚ} (hserver : m.Advertises r w) (hreadings : m.readings = [t, t])
    (hfull : s.budget.reads.tokens = s.budget.reads.capacity) (hone : 1 ≤ s.budget.reads.capacity) :
    ∃ b s', s.discoverLimits m = some (.ok b, s') ∧ s'.sent = s.sent ++ [⟨.read, t, s.replaced⟩] ∧
      s'.budget.reads.tokens = s'.budget.reads.capacity ∧ 1 ≤ s'.budget.reads.capacity := by
  obtain ⟨b, hb, hupdated⟩ := TokenBucket.acquireBy_full roundDouble_rounds
    (fun _ => one_le_roundDouble) hfull hone t t []
  have hget := get_of_granted (m := m) (hreadings ▸ hb)
  obtain ⟨⟨answer, s'⟩, hcall⟩ : ∃ result, s.discoverLimits m = some result := by
    unfold discoverLimits
    rw [hget]
    exact ⟨_, rfl⟩
  obtain ⟨acquired, s₁, hget', ⟨-, hreplace⟩ | ⟨e, he, -, -⟩⟩ := discoverLimits_spec hserver hcall
  · rw [hget] at hget'
    cases hget'
    obtain ⟨b', hb', hfull'⟩ := Budget.fromAdvertisedFloat_eq hr hw m.readsAt m.writesAt
    rw [hb'] at hreplace
    cases hreplace
    obtain ⟨hsized, htokens, -⟩ := hfull' .read
    refine ⟨b', _, hcall, ?_, htokens, ?_⟩
    · show s.sent ++ [⟨.read, b.updated, s.replaced⟩] = _
      rw [hupdated]
    · rw [show b'.reads.capacity = sizeFor r from hsized.capacity]
      exact one_le_sizeFor r
  · rw [hget, he] at hget'
    cases hget'

/-- **Discoveries are not limited**: repeated at one time, each gets its token from the bucket that the
one before it has made. -/
theorem discoveries_unlimited {r w : Int} {m : Moment} {t : ℚ} (hserver : m.Advertises r w)
    (hreadings : m.readings = [t, t]) (hreads : m.readsAt = t) (hwrites : m.writesAt = t) {s₀ : Session}
    (hstart : s₀.Discovered r w) (hnow : s₀.now = t) (n : Nat) :
    ∃ s, Relation.ReflTransGen (Session.Step r w) s₀ s ∧ s.times .read = List.replicate n t := by
  obtain ⟨hsent, -, ⟨f, hf⟩, ⟨g, hg⟩, hfull₀⟩ := hstart.full
  have hrun : ∃ s, Relation.ReflTransGen (Session.Step r w) s₀ s ∧ s.now = t ∧
      s.times .read = List.replicate n t ∧ s.budget.reads.tokens = s.budget.reads.capacity ∧
      1 ≤ s.budget.reads.capacity := by
    induction n with
    | zero =>
      obtain ⟨hsized, htokens, -⟩ := hfull₀ .read
      refine ⟨s₀, .refl, hnow, ?_, htokens, ?_⟩
      · unfold times
        rw [hsent]
        rfl
      · rw [show s₀.budget.reads.capacity = sizeFor r from hsized.capacity]
        exact one_le_sizeFor r
    | succ n ih =>
      obtain ⟨s, hrun, hnow, htimes, hfull, hone⟩ := ih
      obtain ⟨b, s', hcall, hsent', hfull', hone'⟩ :=
        discoverLimits_full hf hg hserver hreadings hfull hone
      refine ⟨{ s' with now := m.writesAt }, hrun.tail ⟨m, .discoverLimits, s', ?_, hserver, ?_, rfl⟩,
        hwrites, ?_, hfull', hone'⟩
      · unfold Moment.Follows
        rw [hnow, hreadings, hreads, hwrites]
        exact List.pairwise_replicate_of_refl (n := 5)
      · show (s.discoverLimits m).map Prod.snd = _
        rw [hcall]
        rfl
      · show (s'.sent.filter _).map _ = _
        rw [hsent', List.filter_append, List.map_append, List.replicate_succ']
        exact congrArg (· ++ [t]) htimes
  obtain ⟨s, hrun, -, htimes, -⟩ := hrun
  exact ⟨s, hrun, htimes⟩

omit [PyBuiltins] [Ed25519] in
/-- A client can be set up at any time. -/
theorem exists_discovered {r w : Int} {f g : ℚ} (hr : floatOfInt r = .ok f) (hw : floatOfInt w = .ok g)
    {m : Moment} {t : ℚ} (hserver : m.Advertises r w) (hreadings : m.readings = [t, t])
    (hreads : m.readsAt = t) (hwrites : m.writesAt = t) :
    ∃ s : Session, s.Discovered r w ∧ s.now = t ∧ ∀ kind, (s.budget.bucket kind).updated = t := by
  obtain ⟨budget, -, hfull⟩ := Budget.fromAdvertisedFloat_eq hr hw t t
  obtain ⟨hsized, htokens, -⟩ := hfull .read
  have hone : 1 ≤ budget.reads.capacity := by
    rw [show budget.reads.capacity = sizeFor r from hsized.capacity]
    exact one_le_sizeFor r
  obtain ⟨b, s, hcall, -⟩ := discoverLimits_full hr hw (s := ⟨budget, 0, t, [], []⟩) hserver hreadings
    htokens hone
  refine ⟨{ s with now := m.writesAt, sent := [], seen := [] },
    ⟨m, _, s, b, ?_, hserver, hcall, rfl⟩, hwrites, fun kind => ?_⟩
  · unfold Moment.Follows
    rw [hreadings, hreads, hwrites]
    exact List.pairwise_replicate_of_refl (n := 5)
  · obtain ⟨acquired, s₂, -, ⟨-, hreplace⟩ | ⟨e, -, he, -⟩⟩ := discoverLimits_spec hserver hcall
    · obtain ⟨b', hb', hfull'⟩ := Budget.fromAdvertisedFloat_eq hr hw m.readsAt m.writesAt
      rw [hb'] at hreplace
      cases hreplace
      rcases (hfull' kind).2.2 with hat | hat
      · exact hat.trans hreads
      · exact hat.trans hwrites
    · cases he

end Calls

end Session

/-! ## Two servers -/

section Servers

attribute [local instance] asciiRuntime asciiBuiltins acceptAll

theorem floatOfInt_one : floatOfInt 1 = .ok (1 : Int) := floatOfInt_of_small (by decide)

theorem floatOfInt_four : floatOfInt 4 = .ok (4 : Int) := floatOfInt_of_small (by decide)

/-- **Two discoveries in one minute** are two reads where one is allowed. -/
theorem discovery_exceeds : ¬ ∀ (r w : Int) (s₀ s : Session), 1 ≤ r → 1 ≤ w → s₀.Discovered r w →
    Relation.ReflTransGen (Session.Step r w) s₀ s → ∀ (kind : Kind) (a : ℚ),
      (Bucket.inWindow (s.times kind) a (a + 60) : Int) ≤ kind.limit r w := by
  intro hall
  obtain ⟨s₀, hstart, hnow, -⟩ :=
    Session.exists_discovered floatOfInt_one floatOfInt_one (sparing_advertises 0) rfl rfl rfl
  obtain ⟨s, hrun, htimes⟩ :=
    Session.discoveries_unlimited (sparing_advertises 0) rfl rfl rfl hstart hnow 2
  have hle := hall 1 1 s₀ s le_rfl le_rfl hstart hrun .read 0
  rw [htimes] at hle
  have hcount : Bucket.inWindow (List.replicate 2 (0 : ℚ)) 0 (0 + 60) = 2 := by decide +kernel
  rw [hcount] at hle
  exact absurd hle (by decide)

/-- The float after one. -/
def hair : ℚ := 1 + 2 ^ (-52 : ℤ)

theorem sizeFor_one : sizeFor 1 = 1 := by
  unfold sizeFor floatCeiling SAFETY_FACTOR
  rw [roundDouble_intCast (by decide)]
  norm_num

theorem rateFor_one : rateFor 1 = 4803839602528529 * 2 ^ (-58 : ℤ) := by
  unfold rateFor roundDouble
  rw [sizeFor_one, Rounding.roundBinary_eq (e := -58) (n := 4803839602528529)]
  · norm_num
  · exact Rounding.lastPlace_eq (x := 1 / 60) (k := -6) (by norm_num [abs_of_pos]) (by norm_num [abs_of_pos])
  · norm_num [abs_lt]

/-- **A hair under a minute** refills an empty bucket for one a minute: what has passed is rounded to
sixty seconds, and their refill to one token. -/
theorem TokenBucket.refillBy_hair {b : TokenBucket} (hsized : b.Sized 1) (htokens : b.tokens = 0)
    (hupdated : b.updated = hair) : 1 ≤ (b.refillBy roundDouble 61).tokens := by
  have helapsed : roundDouble (61 - hair) = 60 := by
    unfold roundDouble hair
    rw [Rounding.roundBinary_eq (e := -47) (n := 60 * 2 ^ 47)]
    · norm_num
    · exact Rounding.lastPlace_eq (k := 5) (by norm_num [abs_of_pos]) (by norm_num [abs_of_pos])
    · norm_num [abs_lt]
  have hproduct : roundDouble (60 * rateFor 1) = 1 := by
    unfold roundDouble
    rw [rateFor_one, Rounding.roundBinary_eq (e := -53) (n := 2 ^ 53)]
    · norm_num
    · exact Rounding.lastPlace_eq (x := 60 * (4803839602528529 * 2 ^ (-58 : ℤ))) (k := -1)
        (by norm_num [abs_of_pos]) (by norm_num [abs_of_pos])
    · norm_num [abs_lt]
  refine le_min (by rw [hsized.capacity]; exact one_le_sizeFor 1) (one_le_roundDouble ?_)
  rw [hupdated, hsized.refillPerSecond, htokens, helapsed, max_eq_right (by norm_num), hproduct, zero_add]

/-- **A hair too early**: one budget grants two reads in a half-open minute, where one is allowed. -/
theorem rounding_exceeds : ∃ s₀ s : Session, s₀.Discovered 1 1 ∧
    Relation.ReflTransGen (Session.Step 1 1) s₀ s ∧ s.OneBudget .read hair ∧
    Kind.limit 1 1 .read < Bucket.inWindow (s.times .read) hair (hair + 60) := by
  obtain ⟨s₀, hstart, hnow, -⟩ :=
    Session.exists_discovered floatOfInt_one floatOfInt_one (sparing_advertises 0) rfl rfl rfl
  obtain ⟨hsent, -, -, -, hfull⟩ := hstart.full
  obtain ⟨hsized, htokens, -⟩ := hfull .read
  replace htokens : s₀.budget.reads.tokens = s₀.budget.reads.capacity := htokens
  have hone : s₀.budget.reads.capacity = 1 := hsized.capacity.trans sizeFor_one
  -- the first read empties the full bucket
  have hlevel : (s₀.budget.reads.refillBy roundDouble hair).tokens = 1 := by
    have hgain : 0 ≤ roundDouble (max 0 (roundDouble (hair - s₀.budget.reads.updated)) *
        s₀.budget.reads.refillPerSecond) := roundDouble_rounds.nonneg _
      (mul_nonneg (le_max_left _ _) s₀.budget.reads.refill_pos.le)
    show min s₀.budget.reads.capacity _ = 1
    rw [hone, htokens, hone]
    exact min_eq_left (one_le_roundDouble (le_add_of_nonneg_right hgain))
  have hfirst : s₀.budget.reads.acquireBy roundDouble [hair, hair] = (.granted, _) :=
    TokenBucket.acquireBy_of_le hlevel.ge hair []
  have hstep₁ : Session.Step 1 1 s₀ _ := Session.Step.listRooms (m := sparing hair) (by
    unfold Moment.Follows
    rw [hnow]
    norm_num [sparing, advertising, hair]) (sparing_advertises hair) hfirst
  -- the second one meets an empty bucket, and the roundings fill it
  have hempty : roundDouble ((s₀.budget.reads.refillBy roundDouble hair).tokens - 1) = 0 := by
    rw [hlevel, sub_self]
    exact roundDouble_intCast (i := 0) (by decide)
  have hsecond := TokenBucket.acquireBy_of_le (t := 61)
    (b := { s₀.budget.reads.refillBy roundDouble hair with
      tokens := roundDouble ((s₀.budget.reads.refillBy roundDouble hair).tokens - 1) })
    (TokenBucket.refillBy_hair ⟨hsized.capacity, hsized.refillPerSecond⟩ hempty rfl) 61 []
  have hstep₂ := Session.Step.listRooms (r := 1) (w := 1) (m := sparing 61) (s := { ((s₀.asked (sparing hair)
    .read _).request .read) with now := (sparing hair).writesAt }) (by
    unfold Moment.Follows
    norm_num [sparing, advertising, hair]) (sparing_advertises 61) hsecond
  obtain ⟨s, hstep₂, hsent₂⟩ : ∃ s, Session.Step 1 1 _ s ∧
      s.sent = [⟨.read, hair, s₀.replaced⟩, ⟨.read, 61, s₀.replaced⟩] := ⟨_, hstep₂, by
    show s₀.sent ++ [_] ++ [_] = _
    rw [hsent]
    rfl⟩
  refine ⟨s₀, s, hstart, (Relation.ReflTransGen.single hstep₁).tail hstep₂,
    ⟨s₀.replaced, fun q hq _ _ _ => ?_⟩, ?_⟩
  · rw [hsent₂] at hq
    simp only [List.mem_cons, List.not_mem_nil, or_false] at hq
    rcases hq with rfl | rfl
    · rfl
    · rfl
  · have htimes : s.times .read = [hair, 61] := by
      unfold Session.times
      rw [hsent₂]
      rfl
    have hcount : Bucket.inWindow [hair, 61] hair (hair + 60) = 2 := by
      norm_num [Bucket.inWindow, List.countP_cons, hair]
    rw [htimes, hcount]
    decide

/-- A refill in no time. -/
theorem TokenBucket.refillBy_now {b : TokenBucket} {n : Int} (hsmall : n.natAbs < 2 ^ 53)
    (htokens : b.tokens = n)
    (hle : b.tokens ≤ b.capacity) : (b.refillBy roundDouble b.updated).tokens = n := by
  have hzero : roundDouble 0 = 0 := roundDouble_intCast (i := 0) (by decide)
  show min b.capacity (roundDouble (b.tokens +
    roundDouble (max 0 (roundDouble (b.updated - b.updated)) * b.refillPerSecond))) = n
  rw [sub_self, hzero, max_self, zero_mul, hzero, add_zero, htokens, roundDouble_intCast hsmall]
  exact min_eq_right (htokens ▸ hle)

/-- Two reads of a client that may make four. -/
theorem limits_kept_generous : ∃ s₀ s : Session, s₀.Discovered 4 4 ∧
    Relation.ReflTransGen (Session.Step 4 4) s₀ s ∧ s.times .read = [0, 0] ∧
    (Bucket.inWindow (s.times .read) 0 (0 + 60) : Int) ≤ 4 := by
  obtain ⟨s₀, hstart, hnow, hupdated⟩ :=
    Session.exists_discovered floatOfInt_four floatOfInt_four (generous_advertises 0) rfl rfl rfl
  obtain ⟨hsent, hseen, -, -, hfull⟩ := hstart.full
  obtain ⟨hsized, htokens, -⟩ := hfull .read
  replace hupdated : s₀.budget.reads.updated = 0 := hupdated .read
  have hsize : s₀.budget.reads.capacity = 2 := by
    rw [show s₀.budget.reads.capacity = sizeFor 4 from hsized.capacity,
      sizeFor_of_two_le (by decide) (by decide)]
    norm_num [SAFETY_FACTOR]
  replace htokens : s₀.budget.reads.tokens = (2 : Int) := htokens.trans (hsize.trans (by norm_num))
  have hlevel : (s₀.budget.reads.refillBy roundDouble 0).tokens = (2 : Int) := by
    rw [← hupdated]
    exact TokenBucket.refillBy_now (by decide) htokens (by rw [htokens, hsize]; norm_num)
  have hfirst : s₀.budget.reads.acquireBy roundDouble [0, 0] = (.granted, _) :=
    TokenBucket.acquireBy_of_le (by rw [hlevel]; norm_num) 0 []
  have hleft : roundDouble ((s₀.budget.reads.refillBy roundDouble 0).tokens - 1) = (1 : Int) := by
    rw [hlevel, ← roundDouble_intCast (i := 1) (by decide)]
    norm_num
  have hlevel' := TokenBucket.refillBy_now (b := { s₀.budget.reads.refillBy roundDouble 0 with
    tokens := roundDouble ((s₀.budget.reads.refillBy roundDouble 0).tokens - 1) }) (by decide) hleft
    (by rw [hleft]; show ((1 : Int) : ℚ) ≤ s₀.budget.reads.capacity; rw [hsize]; norm_num)
  have hsecond := TokenBucket.acquireBy_of_le (t := 0) (hlevel'.ge.trans' (by norm_num)) 0 []
  have hclock : ∀ s : Session, s.now = 0 → (generous 0).Follows s.now := fun s hs => by
    rw [hs]
    exact List.pairwise_replicate_of_refl (n := 5)
  have hstep₁ : Session.Step 4 4 s₀ _ := Session.Step.listRooms (m := generous 0) (hclock s₀ hnow)
    (generous_advertises 0) hfirst
  have hstep₂ := Session.Step.listRooms (r := 4) (w := 4) (m := generous 0)
    (s := { ((s₀.asked (generous 0) .read _).request .read) with now := (generous 0).writesAt })
    (hclock _ rfl) (generous_advertises 0) hsecond
  obtain ⟨s, hstep₂, hsent₂, hseen₂⟩ : ∃ s, Session.Step 4 4 _ s ∧
      s.sent = [⟨.read, 0, s₀.replaced⟩, ⟨.read, 0, s₀.replaced⟩] ∧
      s.seen = [(.read, 0), (.read, 0), (.read, 0), (.read, 0)] := ⟨_, hstep₂, by
    show s₀.sent ++ [_] ++ [_] = _
    rw [hsent]
    rfl, by
    show s₀.seen ++ [_, _] ++ [_, _] = _
    rw [hseen]
    rfl⟩
  have hrun := (Relation.ReflTransGen.single hstep₁).tail hstep₂
  have htimes : s.times .read = [0, 0] := by
    unfold Session.times
    rw [hsent₂]
    rfl
  have hreadings : s.readings .read = [0, 0, 0, 0] := by
    unfold Session.readings
    rw [hseen₂]
    rfl
  refine ⟨s₀, s, hstart, hrun, htimes, Session.limits_kept (by decide) (by decide) hstart hrun .read 0
    ⟨s₀.replaced, fun q hq _ _ _ => ?_⟩ (Session.Roomy.of_two_le (by decide) ?_)⟩
  · rw [hsent₂] at hq
    simp only [List.mem_cons, List.not_mem_nil, or_false, or_self] at hq
    rw [hq]
  · rw [hreadings]
    norm_num [Bucket.inWindow, Kind.limit]

end Servers

end FlopOffice.Technocore
