/-
# FlopOffice.Technocore.Discovery — what any `agent.json` does to the budget.

`discover_limits` catches what the request and the decoder raise; what the document holds is read after
the handler. The sizes are computed in floats: an integer limit is converted first, which rounds it beyond
2^53 and overflows beyond the largest double.

A document degrades safely exactly if it is readable (`LimitsReadable`): `limits` is an object, and its
two entries are falsy or numbers that `int` reads and the conversion does not enlarge.
-/
import FlopOffice.Technocore.Budget

namespace FlopOffice.Technocore

open FlopOffice.Identity FlopOffice.Lib FlopOffice.Python

/-! ## Discovery -/

section Discovery

variable [PyRuntime] [PyBuiltins]

/-- The request of a discovery, decoded. -/
def Moment.document (m : Moment) : Except Exc PyVal :=
  (m.surface (.ok ())).get (py "/.well-known/agent.json") [] >>= Response.json

/-! ## Reading the document -/

/-- An entry of the limits; a missing one is `None`. -/
def limitEntry (data : PyVal) (name : PyStr) : PyVal :=
  (data.get (py "limits") (.record [])).get name

def READS_LIMIT : PyStr := py "reads_per_minute_per_ip"
def WRITES_LIMIT : PyStr := py "writes_per_minute_per_ip"

/-- An entry that says nothing, or a number that `int` reads and the conversion to a float does not
enlarge. -/
def EntryReadable (entry : PyVal) : Prop :=
  entry.truthy = true → ∃ k f, entry.int = .ok k ∧ floatOfInt k = .ok f ∧ (0 < k → f ≤ k)

/-- A document the budget can be sized by. -/
structure LimitsReadable (data : PyVal) : Prop where
  limits : ∀ items, data = .dict items →
    ∃ limits, data.get (py "limits") (.record []) = .dict limits
  reads : EntryReadable (limitEntry data READS_LIMIT)
  writes : EntryReadable (limitEntry data WRITES_LIMIT)

/-- The bucket for an entry: the conservative one if the entry says nothing, else at most
`max(1, half)` of its number. -/
def SizedBy (default : Int) (entry : PyVal) (capacity : ℚ) : Prop :=
  if entry.truthy then ∃ k : Int, entry.int = .ok k ∧ capacity ≤ max 1 ((k : ℚ) / 2)
  else capacity = floatCeiling default

/-- What a discovery promises: it returns, and the budget it installs is the conservative one, or has both
buckets sized by the document. -/
def Degrades (m : Moment) (answer : Except Exc Budget) (s : Session) : Prop :=
  ∃ budget, answer = .ok budget ∧ s.budget = budget ∧
    (Budget.conservative m.readsAt m.writesAt = .ok budget ∨
      ∃ data, m.document = .ok data ∧ SizedBy 30 (limitEntry data READS_LIMIT) budget.reads.capacity ∧
        SizedBy 2 (limitEntry data WRITES_LIMIT) budget.writes.capacity)

/-- The number read from an entry. -/
def entryNumber (default : Int) (entry : PyVal) : Except Exc Int :=
  if entry.truthy then entry.int else .ok default

omit [PyBuiltins] in
theorem entryNumber_eq (limits : PyVal) (name : PyStr) {default : Int} (h : default ≠ 0) :
    (pyOr (limits.get name (.leaf (.int default))) (.leaf (.int default))).int =
      entryNumber default (limits.get name) := by
  have htruthy : PyVal.truthy (.leaf (.int default)) = true := decide_eq_true h
  unfold pyOr entryNumber PyVal.get
  cases limits.get? name with
  | none =>
    rw [Option.getD_none, Option.getD_none, if_pos htruthy]
    rfl
  | some v =>
    rw [Option.getD_some, Option.getD_some]
    split
    · rfl
    · rfl

omit [PyBuiltins] in
/-- **What the document is read as.** -/
theorem advertisedLimits_eq_ok {data : PyVal} {r w : Int} :
    advertisedLimits data = .ok (r, w) ↔
      (∀ items, data = .dict items →
        ∃ limits, data.get (py "limits") (.record []) = .dict limits) ∧
      entryNumber 30 (limitEntry data READS_LIMIT) = .ok r ∧
      entryNumber 2 (limitEntry data WRITES_LIMIT) = .ok w := by
  have hdict : ∀ limits : List (Scalar × PyVal), (do
      let reads ← (pyOr ((PyVal.dict limits).get (py "reads_per_minute_per_ip")
        (.leaf (.int 30))) (.leaf (.int 30))).int
      let writes ← (pyOr ((PyVal.dict limits).get (py "writes_per_minute_per_ip")
        (.leaf (.int 2))) (.leaf (.int 2))).int
      pure (reads, writes) : Except Exc (Int × Int)) = .ok (r, w) ↔
      entryNumber 30 ((PyVal.dict limits).get READS_LIMIT) = .ok r ∧
      entryNumber 2 ((PyVal.dict limits).get WRITES_LIMIT) = .ok w := by
    intro limits
    rw [entryNumber_eq _ _ (by decide), entryNumber_eq _ _ (by decide)]
    simp only [bind_eq_ok, pure, Except.pure, Except.ok.injEq, Prod.mk.injEq]
    constructor
    · rintro ⟨_, hr, _, hw, rfl, rfl⟩
      exact ⟨hr, hw⟩
    · rintro ⟨hr, hw⟩
      exact ⟨r, hr, w, hw, rfl, rfl⟩
  cases data with
  | dict items =>
    unfold advertisedLimits limitEntry
    dsimp only
    cases hlimits : (PyVal.dict items).get (py "limits") (.record []) with
    | dict limits =>
      refine (hdict limits).trans ?_
      exact (and_iff_right fun _ _ => ⟨limits, rfl⟩).symm
    | leaf | list | other =>
      refine iff_of_false (fun h => by cases h) fun h => ?_
      obtain ⟨limits, hl⟩ := h.1 items rfl
      cases hl
  | leaf | list | other =>
    refine (hdict []).trans ?_
    exact (and_iff_right fun _ h => by cases h).symm

omit [PyBuiltins] in
/-- A readable entry has a number, and the conversion gives a float that sizes the bucket by it. -/
theorem entryReadable_iff {default : Int} (hdefault : floatOfInt default = .ok default) {entry : PyVal} :
    EntryReadable entry ↔ ∃ k f, entryNumber default entry = .ok k ∧ floatOfInt k = .ok f ∧
      (entry.truthy = true → 0 < k → f ≤ k) := by
  unfold EntryReadable entryNumber
  cases entry.truthy with
  | false =>
    refine iff_of_true nofun ⟨default, default, ?_, hdefault, nofun⟩
    exact if_neg Bool.false_ne_true
  | true =>
    rw [if_pos rfl]
    simp only [forall_const]

omit [PyBuiltins] in
/-- The size of the bucket keeps to the number exactly if the conversion does. -/
theorem sizedBy_iff {default k : Int} {f : ℚ} {entry : PyVal}
    (hdefault : floatOfInt default = .ok default)
    (hk : entryNumber default entry = .ok k) (hf : floatOfInt k = .ok f) :
    SizedBy default entry (floatCeiling f) ↔ (entry.truthy = true → 0 < k → f ≤ k) := by
  obtain ⟨hpositive, hnegative⟩ := floatOfInt_cases hf
  unfold entryNumber at hk
  unfold SizedBy
  split at hk
  · rename_i htruthy
    rw [if_pos htruthy]
    simp only [htruthy, forall_const, hk, Except.ok.injEq, exists_eq_left']
    unfold floatCeiling SAFETY_FACTOR
    constructor
    · intro hle hpos
      rcases hpositive hpos with heq | hlarge
      · exact heq.le
      · have hhalf : f * (1 / 2) ≤ max 1 ((k : ℚ) / 2) := (le_max_right _ _).trans hle
        rcases le_max_iff.mp hhalf with hone | hnumber
        · linarith
        · linarith
    · intro hle
      rcases lt_or_ge 0 k with hpos | hneg
      · have hkept := hle hpos
        exact max_le_max_left 1 (by linarith)
      · have hzero := hnegative hneg
        exact max_le (le_max_left _ _) (le_max_of_le_left (by linarith))
  · rename_i hfalsy
    cases hk
    rw [hdefault] at hf
    cases hf
    rw [if_neg hfalsy]
    exact iff_of_true rfl fun htruthy => absurd htruthy hfalsy

omit [PyRuntime] [PyBuiltins] in
theorem floatOfInt_defaults : floatOfInt 30 = .ok (30 : Int) ∧ floatOfInt 2 = .ok (2 : Int) :=
  ⟨floatOfInt_of_small (by norm_num), floatOfInt_of_small (by norm_num)⟩

omit [PyBuiltins] in
/-- **A readable document** is one whose two numbers are read, converted, and not enlarged. -/
theorem limitsReadable_iff {data : PyVal} :
    LimitsReadable data ↔ ∃ r w f g, advertisedLimits data = .ok (r, w) ∧ floatOfInt r = .ok f ∧
      floatOfInt w = .ok g ∧ ((limitEntry data READS_LIMIT).truthy = true → 0 < r → f ≤ r) ∧
      ((limitEntry data WRITES_LIMIT).truthy = true → 0 < w → g ≤ w) := by
  constructor
  · rintro ⟨hlimits, hreads, hwrites⟩
    obtain ⟨r, f, hr, hf, hkeepr⟩ := (entryReadable_iff floatOfInt_defaults.1).mp hreads
    obtain ⟨w, g, hw, hg, hkeepw⟩ := (entryReadable_iff floatOfInt_defaults.2).mp hwrites
    exact ⟨r, w, f, g, advertisedLimits_eq_ok.mpr ⟨hlimits, hr, hw⟩, hf, hg, hkeepr, hkeepw⟩
  · rintro ⟨r, w, f, g, hread, hf, hg, hkeepr, hkeepw⟩
    obtain ⟨hlimits, hr, hw⟩ := advertisedLimits_eq_ok.mp hread
    exact ⟨hlimits, (entryReadable_iff floatOfInt_defaults.1).mpr ⟨r, f, hr, hf, hkeepr⟩,
      (entryReadable_iff floatOfInt_defaults.2).mpr ⟨w, g, hw, hg, hkeepw⟩⟩

omit [PyRuntime] [PyBuiltins] in
/-- A bucket of the conservative size is no enlarged one. -/
theorem kept_of_conservative {default k : Int} {f : ℚ} (hk : floatOfInt k = .ok f)
    (htwo : 2 ≤ default) (hsmall : default < 2 ^ 53) (h : floatCeiling f = floatCeiling default)
    (hpos : 0 < k) : f ≤ k := by
  have htwo' : (2 : ℚ) ≤ default := by exact_mod_cast htwo
  have hsmall' : (default : ℚ) < 2 ^ 53 := by exact_mod_cast hsmall
  have hceiling : floatCeiling default = default * SAFETY_FACTOR :=
    max_eq_right (by unfold SAFETY_FACTOR; linarith)
  have hle : f * SAFETY_FACTOR ≤ default * SAFETY_FACTOR :=
    calc f * SAFETY_FACTOR ≤ floatCeiling f := le_max_right _ _
      _ = default * SAFETY_FACTOR := h.trans hceiling
  have hf : f ≤ default := le_of_mul_le_mul_right hle (by unfold SAFETY_FACTOR; norm_num)
  rcases (floatOfInt_cases hk).1 hpos with heq | hlarge
  · exact heq.le
  · linarith

omit [PyRuntime] [PyBuiltins] in
/-- The conservative budget, and the sizes of its buckets. -/
theorem Budget.conservative_eq (readsAt writesAt : ℚ) :
    ∃ budget, Budget.conservative readsAt writesAt = .ok budget ∧
      budget.reads.capacity = floatCeiling (30 : Int) ∧
      budget.writes.capacity = floatCeiling (2 : Int) := by
  obtain ⟨budget, hbudget, hfull⟩ :=
    Budget.fromAdvertisedFloat_eq floatOfInt_defaults.1 floatOfInt_defaults.2 readsAt writesAt
  refine ⟨budget, hbudget, ?_, ?_⟩
  · rw [floatOfInt_eq_ok floatOfInt_defaults.1]
    exact (hfull .read).1.capacity
  · rw [floatOfInt_eq_ok floatOfInt_defaults.2]
    exact (hfull .write).1.capacity

omit [PyBuiltins] in
/-- **The answer to a document** degrades exactly if the document is readable. -/
theorem degrades_document_iff {s s' : Session} {m : Moment} {data : PyVal} {answer : Except Exc Budget}
    (hdoc : m.document = .ok data)
    (h : (match advertisedLimits data with
      | .error e => (.error e, s)
      | .ok (reads, writes) =>
        s.replace (Budget.fromAdvertisedFloat reads writes m.readsAt m.writesAt)) = (answer, s')) :
    Degrades m answer s' ↔ LimitsReadable data := by
  rw [limitsReadable_iff]
  cases hread : advertisedLimits data with
  | error e =>
    rw [hread] at h
    cases h
    refine iff_of_false ?_ ?_
    · rintro ⟨_, hanswer, -⟩
      cases hanswer
    · rintro ⟨r, w, f, g, hlimits, -⟩
      cases hlimits
  | ok limits =>
    obtain ⟨r, w⟩ := limits
    obtain ⟨-, hr, hw⟩ := advertisedLimits_eq_ok.mp hread
    rw [hread] at h
    dsimp only at h
    cases hmade : Budget.fromAdvertisedFloat r w m.readsAt m.writesAt with
    | error e =>
      rw [hmade] at h
      cases h
      refine iff_of_false ?_ ?_
      · rintro ⟨_, hanswer, -⟩
        cases hanswer
      · rintro ⟨r', w', f, g, hlimits, hf, hg, -⟩
        cases hlimits
        obtain ⟨budget, hbudget, -⟩ := Budget.fromAdvertisedFloat_eq hf hg m.readsAt m.writesAt
        rw [hmade] at hbudget
        cases hbudget
    | ok budget =>
      rw [hmade] at h
      cases h
      obtain ⟨f, g, hf, hg, hfull⟩ := Budget.fromAdvertisedFloat_eq_ok hmade
      have hreads : budget.reads.capacity = floatCeiling f :=
        (hfull .read).1.capacity.trans (congrArg floatCeiling (floatOfInt_eq_ok hf).symm)
      have hwrites : budget.writes.capacity = floatCeiling g :=
        (hfull .write).1.capacity.trans (congrArg floatCeiling (floatOfInt_eq_ok hg).symm)
      have hsizer := sizedBy_iff floatOfInt_defaults.1 hr hf
      have hsizew := sizedBy_iff floatOfInt_defaults.2 hw hg
      constructor
      · rintro ⟨_, hanswer, -, hconservative | ⟨data', hdata', hr', hw'⟩⟩
        · cases hanswer
          obtain ⟨budget', hbudget', hr', hw'⟩ := Budget.conservative_eq m.readsAt m.writesAt
          rw [hconservative] at hbudget'
          cases hbudget'
          refine ⟨r, w, f, g, rfl, hf, hg, fun _ => ?_, fun _ => ?_⟩
          · exact kept_of_conservative hf (by decide) (by decide) (hreads.symm.trans hr')
          · exact kept_of_conservative hg (by decide) (by decide) (hwrites.symm.trans hw')
        · cases hanswer
          rw [hdoc] at hdata'
          cases hdata'
          rw [hreads] at hr'
          rw [hwrites] at hw'
          exact ⟨r, w, f, g, rfl, hf, hg, hsizer.mp hr', hsizew.mp hw'⟩
      · rintro ⟨r', w', f', g', hlimits, hf', hg', hkeepr, hkeepw⟩
        cases hlimits
        rw [hf] at hf'
        rw [hg] at hg'
        cases hf'
        cases hg'
        refine ⟨budget, rfl, rfl, Or.inr ⟨data, hdoc, ?_, ?_⟩⟩
        · rw [hreads]
          exact hsizer.mpr hkeepr
        · rw [hwrites]
          exact hsizew.mpr hkeepw

omit [PyBuiltins] in
/-- **When a discovery degrades safely**: its request gets a token, and the document, if there is one, is
readable. -/
theorem discoverLimits_degrades_iff {s s' : Session} {m : Moment} {answer : Except Exc Budget}
    (h : s.discoverLimits m = some (answer, s')) :
    Degrades m answer s' ↔ (∃ b, s.budget.reads.acquireBy roundDouble m.readings = (.granted, b)) ∧
      match m.document with
      | .error e => (e.cls.isTechnocoreError || e.cls.isValueError) = true
      | .ok data => LimitsReadable data := by
  obtain ⟨⟨acquired, s₁⟩, hget, hanswer⟩ := Option.map_eq_some_iff.mp h
  obtain ⟨⟨acquired', s₂⟩, hacquire, hsent⟩ := Option.map_eq_some_iff.mp hget
  obtain ⟨b, rfl, ⟨hb, rfl⟩ | ⟨t, hb, rfl⟩⟩ := Session.acquire_eq_some.mp hacquire
  · replace hb : s.budget.reads.acquireBy roundDouble m.readings = (.granted, b) := hb
    rw [and_iff_right ⟨b, hb⟩]
    cases hsent
    dsimp only at hanswer
    cases hdoc : m.document with
    | error e =>
      have hdoc' := hdoc
      unfold Moment.document at hdoc'
      rw [hdoc'] at hanswer
      dsimp only at hanswer ⊢
      split at hanswer
      · rename_i hcaught
        obtain ⟨budget, hbudget, -⟩ := Budget.conservative_eq m.readsAt m.writesAt
        rw [hbudget] at hanswer
        cases hanswer
        exact iff_of_true ⟨budget, rfl, rfl, Or.inl hbudget⟩ hcaught
      · rename_i hraised
        cases hanswer
        refine iff_of_false ?_ hraised
        rintro ⟨_, hanswer, -⟩
        cases hanswer
    | ok data =>
      have hdoc' := hdoc
      unfold Moment.document at hdoc'
      rw [hdoc'] at hanswer
      exact degrades_document_iff hdoc hanswer
  · -- the local limit is not caught: `RateLimitExceeded` is no `TechnocoreError`
    replace hb : s.budget.reads.acquireBy roundDouble m.readings = (.refused t, b) := hb
    cases hsent
    cases hanswer
    refine iff_of_false ?_ ?_
    · rintro ⟨_, hanswer, -⟩
      cases hanswer
    · rintro ⟨⟨b', hb'⟩, -⟩
      rw [hb] at hb'
      cases hb'

omit [PyBuiltins] in
/-- A request with a token is answered. -/
theorem Session.discoverLimits_isSome {s : Session} {m : Moment} {b : TokenBucket}
    (h : s.budget.reads.acquireBy roundDouble m.readings = (.granted, b)) :
    ∃ answer s', s.discoverLimits m = some (answer, s') := by
  unfold discoverLimits
  rw [Session.get_of_granted h]
  exact ⟨_, _, rfl⟩

end Discovery

section Answers

attribute [local instance] asciiRuntime asciiBuiltins

/-- A server whose limits are `null`, at the time 0. -/
def nullLimits : Moment where
  readings := [0, 0]
  readsAt := 0
  writesAt := 0
  server _ _ := .ok (.ofJson (.record [(py "limits", .leaf .none)]) (by decide +kernel))
  retryAfter := py "unknown"

theorem nullLimits_document : nullLimits.document = .ok (.record [(py "limits", .leaf .none)]) := rfl

/-- A new client gets its first token at once. -/
theorem exists_granted : ∃ (s : Session) (b : TokenBucket),
    s.budget.reads.acquireBy roundDouble [0, 0] = (.granted, b) := by
  obtain ⟨budget, -, hfull⟩ :=
    Budget.fromAdvertisedFloat_eq floatOfInt_defaults.1 floatOfInt_defaults.2 0 0
  obtain ⟨hsized, htokens, -⟩ := hfull .read
  have hone : 1 ≤ budget.reads.capacity := by
    rw [show budget.reads.capacity = sizeFor 30 from hsized.capacity]
    exact one_le_floatCeiling _
  obtain ⟨b, hb, -⟩ := TokenBucket.acquireBy_full roundDouble_rounds (fun _ => one_le_roundDouble)
    htokens hone 0 0 []
  exact ⟨⟨budget, 0, 0, [], []⟩, b, hb⟩

/-- **`null` limits do not degrade**: `limits.get` is called on `None`. -/
theorem null_limits_raise : ¬ ∀ (s s' : Session) (m : Moment) (data : PyVal) (b : TokenBucket)
    (answer : Except Exc Budget), m.document = .ok data → data.isJson = true →
    s.budget.reads.acquireBy roundDouble m.readings = (.granted, b) →
    s.discoverLimits m = some (answer, s') → Degrades m answer s' := by
  intro hall
  obtain ⟨s, b, hb⟩ := exists_granted
  obtain ⟨answer, s', hanswer⟩ := Session.discoverLimits_isSome (m := nullLimits) hb
  have hdegrades := hall s s' nullLimits _ b answer nullLimits_document (by decide) hb hanswer
  obtain ⟨budget, hok, -⟩ := hdegrades
  rw [hok] at hanswer
  have hraised : s.discoverLimits nullLimits = some (.error ⟨.attributeError, []⟩,
      (s.asked nullLimits .read b).request .read) := by
    unfold Session.discoverLimits
    rw [Session.get_of_granted hb]
    rfl
  rw [hraised] at hanswer
  cases hanswer

/-- A server that advertises a read and a write per minute is followed. -/
theorem discoverLimits_degrades_iff_sparing : ∃ (s s' : Session) (answer : Except Exc Budget),
    s.discoverLimits (sparing 0) = some (answer, s') ∧ Degrades (sparing 0) answer s' := by
  obtain ⟨s, b, hb⟩ := exists_granted
  obtain ⟨answer, s', hanswer⟩ := Session.discoverLimits_isSome (m := sparing 0) hb
  have hone : EntryReadable (.leaf (.int 1)) := fun _ =>
    ⟨1, (1 : Int), rfl, floatOfInt_of_small (by decide), fun _ => le_rfl⟩
  exact ⟨s, s', answer, hanswer, (discoverLimits_degrades_iff hanswer).mpr
    ⟨⟨b, hb⟩, ⟨fun _ _ => ⟨_, rfl⟩, hone, hone⟩⟩⟩

end Answers

end FlopOffice.Technocore
