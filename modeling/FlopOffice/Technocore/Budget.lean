/-
# FlopOffice.Technocore.Budget — a client in use, and what it may send.

A budget has a bucket for reads and one for writes, each sized below what the server advertises, in floats
as the source computes it. A session is a client with its budget: a call asks a bucket at the readings of
the clock it is given, and the requests that went out are kept with the budget that paid for them.
`discover_limits` replaces both buckets, and the new ones are full.
-/
import FlopOffice.Technocore.Client
import FlopOffice.Technocore.FloatBucket
import FlopOffice.Technocore.Reads

namespace FlopOffice.Technocore

open FlopOffice.Identity FlopOffice.Lib FlopOffice.Python

/-! ## Budgets -/

/-- Read/write buckets derived from a server's advertised limits. -/
structure Budget where
  reads : TokenBucket
  writes : TokenBucket

/-- Fraction of the server's advertised limit we allow ourselves to use. -/
def SAFETY_FACTOR : ℚ := 1 / 2

/-- Buckets at `safety` times the stated limits, made at the times `readsAt` and `writesAt`, in exact
arithmetic. -/
def Budget.fromAdvertised (readsPerMinute writesPerMinute : Int) (readsAt writesAt : ℚ)
    (safety : ℚ := SAFETY_FACTOR) : Except Exc Budget := do
  let reads := max 1 (readsPerMinute * safety)
  let writes := max 1 (writesPerMinute * safety)
  let readBucket ← TokenBucket.create reads (reads / 60) readsAt
  let writeBucket ← TokenBucket.create writes (writes / 60) writesAt
  pure ⟨readBucket, writeBucket⟩

/-- `from_advertised` at the default safety factor, in floats: each limit is converted first. Halving it is
exact. -/
def Budget.fromAdvertisedFloat (readsPerMinute writesPerMinute : Int) (readsAt writesAt : ℚ) :
    Except Exc Budget := do
  let reads ← floatOfInt readsPerMinute
  let writes ← floatOfInt writesPerMinute
  let reads := max 1 (reads * SAFETY_FACTOR)
  let writes := max 1 (writes * SAFETY_FACTOR)
  let readBucket ← TokenBucket.create reads (roundDouble (reads / 60)) readsAt
  let writeBucket ← TokenBucket.create writes (roundDouble (writes / 60)) writesAt
  pure ⟨readBucket, writeBucket⟩

/-- Fallback when limits could not be discovered. -/
def Budget.conservative (readsAt writesAt : ℚ) : Except Exc Budget :=
  Budget.fromAdvertisedFloat 30 2 readsAt writesAt

/-- What a request costs a token for. -/
inductive Kind
  | read
  | write
  deriving DecidableEq

/-- The bucket that pays for a kind of request. -/
def Budget.bucket (budget : Budget) : Kind → TokenBucket
  | .read => budget.reads
  | .write => budget.writes

def Budget.setBucket (budget : Budget) (kind : Kind) (b : TokenBucket) : Budget :=
  match kind with
  | .read => { budget with reads := b }
  | .write => { budget with writes := b }

/-! ## A client in use -/

/-- A request that went out: when its token was granted, and by which of the client's budgets. -/
structure SentRequest where
  kind : Kind
  time : ℚ
  budget : Nat

/-- What a call meets: the readings of the clock by the bucket it asks and by the buckets it makes, and the
answers of the server. -/
structure Moment where
  readings : List ℚ
  readsAt : ℚ
  writesAt : ℚ
  server : PyStr → List (PyStr × Scalar) → Except GetError Response
  retryAfter : PyStr

/-- What a read meets when its bucket has answered. -/
def Moment.surface (m : Moment) (acquired : Except Exc Unit) : Surface :=
  ⟨acquired, m.server, m.retryAfter⟩

/-- A client in use: its budget and how often that was replaced, the last reading of the clock, the
requests so far, and the readings that its calls had for the buckets. -/
structure Session where
  budget : Budget
  replaced : Nat
  now : ℚ
  sent : List SentRequest
  seen : List (Kind × ℚ)

namespace Session

/-- The client after a call has asked a bucket, which is left as `b`. -/
def asked (s : Session) (m : Moment) (kind : Kind) (b : TokenBucket) : Session :=
  { s with
    budget := s.budget.setBucket kind b
    seen := s.seen ++ m.readings.map fun t => (kind, t) }

/-- A token for a request. As long as the call is waiting there is no answer. -/
def acquire (s : Session) (m : Moment) (kind : Kind) : Option (Except Exc Unit × Session) :=
  match (s.budget.bucket kind).acquireBy roundDouble m.readings with
  | (.granted, b) => some (.ok (), s.asked m kind b)
  | (.refused _, b) => some (.error ⟨.rateLimitExceeded, []⟩, s.asked m kind b)
  | (.waiting, _) => none

/-- A request goes out. -/
def request (s : Session) (kind : Kind) : Session :=
  { s with sent := s.sent ++ [⟨kind, (s.budget.bucket kind).updated, s.replaced⟩] }

/-- `_get`, up to the answer of the server. -/
def get (s : Session) (m : Moment) : Option (Except Exc Unit × Session) :=
  (s.acquire m .read).map fun (acquired, s) =>
    match acquired with
    | .ok () => (.ok (), s.request .read)
    | .error e => (.error e, s)

/-- `self._budget = budget`. -/
def replace (s : Session) : Except Exc Budget → Except Exc Budget × Session
  | .ok budget => (.ok budget, { s with budget := budget, replaced := s.replaced + 1 })
  | .error e => (.error e, s)

/-- A token is granted, or refused. -/
theorem acquire_eq_some {s s' : Session} {m : Moment} {kind : Kind} {acquired : Except Exc Unit} :
    s.acquire m kind = some (acquired, s') ↔ ∃ b, s' = s.asked m kind b ∧
      (((s.budget.bucket kind).acquireBy roundDouble m.readings = (.granted, b) ∧ acquired = .ok ()) ∨
        ∃ t, (s.budget.bucket kind).acquireBy roundDouble m.readings = (.refused t, b) ∧
          acquired = .error ⟨.rateLimitExceeded, []⟩) := by
  unfold Session.acquire
  generalize (s.budget.bucket kind).acquireBy roundDouble m.readings = result
  obtain ⟨a, b⟩ := result
  cases a with
  | granted =>
    simp only [Option.some.injEq, Prod.mk.injEq, reduceCtorEq, false_and, exists_false, or_false]
    constructor
    · rintro ⟨rfl, rfl⟩
      exact ⟨b, rfl, ⟨trivial, rfl⟩, rfl⟩
    · rintro ⟨_, rfl, ⟨-, rfl⟩, rfl⟩
      exact ⟨rfl, rfl⟩
  | refused t =>
    simp only [Option.some.injEq, Prod.mk.injEq, reduceCtorEq, false_and, false_or]
    constructor
    · rintro ⟨rfl, rfl⟩
      exact ⟨b, rfl, t, ⟨rfl, rfl⟩, rfl⟩
    · rintro ⟨_, rfl, _, ⟨-, rfl⟩, rfl⟩
      exact ⟨rfl, rfl⟩
  | waiting =>
    simp

/-- A request with a token goes out. -/
theorem get_of_granted {s : Session} {m : Moment} {b : TokenBucket}
    (h : s.budget.reads.acquireBy roundDouble m.readings = (.granted, b)) :
    s.get m = some (.ok (), (s.asked m .read b).request .read) := by
  have hbucket : (s.budget.bucket .read).acquireBy roundDouble m.readings = (.granted, b) := h
  unfold Session.get Session.acquire
  rw [hbucket]
  rfl

end Session

section Calls

variable [PyRuntime] [PyBuiltins]

/-- The limits in `agent.json`. -/
def advertisedLimits (data : PyVal) : Except Exc (Int × Int) := do
  let limits := match data with
    | .dict _ => data.get (py "limits") (.record [])
    | _ => .record []
  match limits with
  | .dict _ => do
    let default (n : Int) := PyVal.leaf (.int n)
    let reads ← (pyOr (limits.get (py "reads_per_minute_per_ip") (default 30)) (default 30)).int
    let writes ← (pyOr (limits.get (py "writes_per_minute_per_ip") (default 2)) (default 2)).int
    pure (reads, writes)
  | _ => throw ⟨.attributeError, []⟩

namespace Session

/-- `discover_limits`. -/
def discoverLimits (s : Session) (m : Moment) : Option (Except Exc Budget × Session) :=
  (s.get m).map fun (acquired, s) =>
    match (m.surface acquired).get (py "/.well-known/agent.json") [] >>= Response.json with
    | .error e =>
      if e.cls.isTechnocoreError || e.cls.isValueError then
        s.replace (Budget.conservative m.readsAt m.writesAt)
      else (.error e, s)
    | .ok data =>
      match advertisedLimits data with
      | .error e => (.error e, s)
      | .ok (reads, writes) => s.replace (Budget.fromAdvertisedFloat reads writes m.readsAt m.writesAt)

/-- `read_room`: the bucket is asked once there is a path. -/
def readRoom [Ed25519] (s : Session) (m : Moment) (room : PyStr) (since limit : Option Int) :
    Option (Except Exc (List UntrustedMessage) × Session) :=
  match validateRoom room >>= encodePathSegment with
  | .error e => some (.error e, s)
  | .ok _ => (s.get m).map fun (acquired, s) =>
    (Technocore.readRoom (m.surface acquired) room since limit, s)

/-- `list_rooms`. -/
def listRooms (s : Session) (m : Moment) : Option (Except Exc (List UntrustedRoom) × Session) :=
  (s.get m).map fun (acquired, s) => (Technocore.listRooms (m.surface acquired), s)

/-- `send_signed_message`, where the guard answers `guard`. -/
def sendSignedMessage [Ed25519] (s : Session) (m : Moment) (client : TechnocoreClient)
    (write : SignedWrite) (guard : Except Exc Unit) : Option (Except Exc PyVal × Session) :=
  match write.verifies with
  | .error e => some (.error e, s)
  | .ok false => some (.error ⟨.technocoreError,
      py "refusing to send a write that fails local verification"⟩, s)
  | .ok true =>
    match guard with
    | .error e => some (.error e, s)
    | .ok () => (s.acquire m .write).map fun (acquired, s) =>
      match acquired with
      | .error e => (.error e, s)
      | .ok () =>
        match write.path with
        | .error e => (.error e, s)
        | .ok path =>
          (TechnocoreClient.serverResult (m.server (client.baseUrl ++ path) []), s.request .write)

/-- A call of the client. -/
inductive Call
  | readRoom (room : PyStr) (since limit : Option Int)
  | listRooms
  | discoverLimits
  | sendSignedMessage (client : TechnocoreClient) (write : SignedWrite) (guard : Except Exc Unit)

/-- The client after a call. -/
def after [Ed25519] (s : Session) (m : Moment) : Call → Option Session
  | .readRoom room since limit => (s.readRoom m room since limit).map Prod.snd
  | .listRooms => (s.listRooms m).map Prod.snd
  | .discoverLimits => (s.discoverLimits m).map Prod.snd
  | .sendSignedMessage client write guard => (s.sendSignedMessage m client write guard).map Prod.snd

end Session

/-- **The send is the guarded write**: it takes one of the exits of `send_signed_message`, with as many
requests as that exit has, where the write bucket answers there as it does here. -/
theorem Session.sendSignedMessage_exit [Ed25519] {s s' : Session} {m : Moment} {client : TechnocoreClient}
    {write : SignedWrite} {publicGate : Option Nat} {guard : Except Exc Unit} {w : World}
    {r : Except Exc PyVal} (hbucket : (w.writes.acquire w.clock).1 =
      (s.budget.writes.acquireBy roundDouble m.readings).1)
    (hserver : ∀ path, m.server (client.baseUrl ++ path) [] = w.server)
    (hguard : client.guardResult write publicGate w = some guard)
    (h : s.sendSignedMessage m client write guard = some (r, s')) :
    ∃ urls, TechnocoreClient.SendExit client write publicGate w r urls ∧
      s'.sent.length = s.sent.length + urls.length := by
  unfold Session.sendSignedMessage at h
  split at h
  · rename_i e hverifies
    cases h
    exact ⟨[], .unverifiable hverifies, rfl⟩
  · rename_i hverifies
    cases h
    exact ⟨[], .unverified hverifies, rfl⟩
  rename_i hverifies
  split at h
  · rename_i e
    cases h
    exact ⟨[], .refused hverifies hguard, rfl⟩
  obtain ⟨⟨acquired, s₁⟩, hacquire, hanswer⟩ := Option.map_eq_some_iff.mp h
  obtain ⟨b, rfl, ⟨hb, rfl⟩ | ⟨t, hb, rfl⟩⟩ := Session.acquire_eq_some.mp hacquire
  · replace hb : s.budget.writes.acquireBy roundDouble m.readings = (.granted, b) := hb
    have hgranted : w.writes.acquire w.clock = (.granted, (w.writes.acquire w.clock).2) :=
      Prod.ext (hbucket.trans (by rw [hb])) rfl
    dsimp only at hanswer
    split at hanswer
    · rename_i e hpath
      cases hanswer
      exact ⟨[], .unencodable hverifies hguard hgranted hpath, rfl⟩
    · rename_i path hpath
      cases hanswer
      rw [hserver path]
      exact ⟨_, .sent hverifies hguard hgranted hpath, List.length_append⟩
  · replace hb : s.budget.writes.acquireBy roundDouble m.readings = (.refused t, b) := hb
    have hrefused : w.writes.acquire w.clock = (.refused t, (w.writes.acquire w.clock).2) :=
      Prod.ext (hbucket.trans (by rw [hb])) rfl
    cases hanswer
    exact ⟨[], .limited hverifies hguard hrefused, rfl⟩

/-! ## Runs -/

/-- The server advertises `r` reads and `w` writes per minute. -/
def Moment.Advertises (m : Moment) (r w : Int) : Prop :=
  ∃ response data, m.server (py "/.well-known/agent.json") [] = .ok response ∧
    response.statusCode < 400 ∧ response.json = .ok data ∧ advertisedLimits data = .ok (r, w)

/-- The readings of the clock are in order, and come after `now`. -/
def Moment.Follows (m : Moment) (now : ℚ) : Prop :=
  (now :: m.readings ++ [m.readsAt, m.writesAt]).Pairwise (· ≤ ·)

/-- One call, of a client whose server advertises `r` and `w`. -/
def Session.Step [Ed25519] (r w : Int) (s s' : Session) : Prop :=
  ∃ (m : Moment) (c : Session.Call) (s₁ : Session), m.Follows s.now ∧ m.Advertises r w ∧
    s.after m c = some s₁ ∧ s' = { s₁ with now := m.writesAt }

/-- A client whose first discovery has just returned; its requests are counted from here on, and its
readings of the clock. -/
def Session.Discovered (r w : Int) (s : Session) : Prop :=
  ∃ (m : Moment) (s₀ s₁ : Session) (b : Budget), m.Follows s₀.now ∧ m.Advertises r w ∧
    s₀.discoverLimits m = some (.ok b, s₁) ∧ s = { s₁ with now := m.writesAt, sent := [], seen := [] }

/-- What the server allows in a minute. -/
def Kind.limit (r w : Int) : Kind → Int
  | .read => r
  | .write => w

/-- The times of the requests of one kind. -/
def Session.times (s : Session) (kind : Kind) : List ℚ :=
  (s.sent.filter fun q => q.kind = kind).map SentRequest.time

/-- The readings of the clock that the calls had for the bucket of one kind. -/
def Session.readings (s : Session) (kind : Kind) : List ℚ :=
  (s.seen.filter fun q => q.1 = kind).map Prod.snd

/-- The size of a bucket for a converted limit. -/
def floatCeiling (f : ℚ) : ℚ := max 1 (f * SAFETY_FACTOR)

/-- The size of a bucket for an advertised limit. -/
def sizeFor (limit : Int) : ℚ := floatCeiling (roundDouble limit)

/-- What such a bucket refills by in a second. -/
def rateFor (limit : Int) : ℚ := roundDouble (sizeFor limit / 60)

/-- The requests of one kind in the minute from `a` on were all granted by one budget. -/
def Session.OneBudget (s : Session) (kind : Kind) (a : ℚ) : Prop :=
  ∃ g, ∀ q ∈ s.sent, q.kind = kind → a ≤ q.time → q.time < a + 60 → q.budget = g

/-- The roundings have room below the next request: between any two readings in the minute from `a` on, a
full bucket and its refill are less than `limit + 1`, with a small part of the bucket for every reading. -/
def Session.Roomy (s : Session) (kind : Kind) (limit : Int) (a : ℚ) : Prop :=
  ∀ t ∈ s.readings kind, ∀ t' ∈ s.readings kind, a ≤ t → t ≤ t' → t' < a + 60 →
    sizeFor limit *
      (1 + (t' - t) / 60 + 8 * doubleError * Bucket.inWindow (s.readings kind) a (a + 60)) < limit + 1

end Calls

section Advertising

attribute [local instance] asciiRuntime asciiBuiltins

/-- An `agent.json` with the limits `r` and `w`. -/
def limitsDocument (r w : Int) : PyVal :=
  .record [(py "limits", .record [
    (py "reads_per_minute_per_ip", .leaf (.int r)), (py "writes_per_minute_per_ip", .leaf (.int w))])]

/-- A server that advertises them, met at the time `t`. -/
def advertising (r w : Int) (h : (limitsDocument r w).isJson = true) (t : ℚ) : Moment where
  readings := [t, t]
  readsAt := t
  writesAt := t
  server _ _ := .ok (.ofJson (limitsDocument r w) h)
  retryAfter := py "unknown"

/-- One read and one write. -/
def sparing : ℚ → Moment := advertising 1 1 (by decide +kernel)

theorem sparing_advertises (t : ℚ) : (sparing t).Advertises 1 1 :=
  ⟨_, _, rfl, (by decide : 200 < 400), rfl, rfl⟩

/-- Four reads and four writes. -/
def generous : ℚ → Moment := advertising 4 4 (by decide +kernel)

theorem generous_advertises (t : ℚ) : (generous t).Advertises 4 4 :=
  ⟨_, _, rfl, (by decide : 200 < 400), rfl, rfl⟩

end Advertising

/-! ## New budgets -/

theorem one_le_floatCeiling (f : ℚ) : 1 ≤ floatCeiling f := le_max_left _ _

theorem floatCeiling_pos (f : ℚ) : 0 < floatCeiling f := one_pos.trans_le (one_le_floatCeiling f)

/-- A bucket is as large as an advertised limit makes it. -/
structure TokenBucket.Sized (b : TokenBucket) (limit : Int) : Prop where
  capacity : b.capacity = sizeFor limit
  refillPerSecond : b.refillPerSecond = rateFor limit

theorem rate_pos (f : ℚ) : 0 < roundDouble (floatCeiling f / 60) := by
  have hle : (2 : ℚ) ^ (-6 : ℤ) ≤ floatCeiling f / 60 := by
    have hone := one_le_floatCeiling f
    rw [le_div_iff₀ (by norm_num)]
    norm_num
    linarith
  exact (Rounding.two_zpow_pos (-6)).trans_le
    (Rounding.zpow_le_roundBinary (by decide) (by decide) hle)

/-- **A new budget** is full. -/
theorem Budget.fromAdvertisedFloat_eq {r w : Int} {f g : ℚ} (hr : floatOfInt r = .ok f)
    (hw : floatOfInt w = .ok g) (readsAt writesAt : ℚ) :
    ∃ budget, Budget.fromAdvertisedFloat r w readsAt writesAt = .ok budget ∧
      ∀ kind, (budget.bucket kind).Sized (kind.limit r w) ∧
        (budget.bucket kind).tokens = (budget.bucket kind).capacity ∧
        ((budget.bucket kind).updated = readsAt ∨ (budget.bucket kind).updated = writesAt) := by
  let full (f now : ℚ) : TokenBucket := ⟨floatCeiling f, roundDouble (floatCeiling f / 60),
    floatCeiling f, now, floatCeiling_pos f, rate_pos f⟩
  have hcreate : ∀ f now : ℚ,
      TokenBucket.create (floatCeiling f) (roundDouble (floatCeiling f / 60)) now = .ok (full f now) :=
    fun f _ => dif_pos ⟨floatCeiling_pos f, rate_pos f⟩
  refine ⟨⟨full f readsAt, full g writesAt⟩, ?_, fun kind => ?_⟩
  · unfold Budget.fromAdvertisedFloat
    rw [hr, hw]
    show (TokenBucket.create (floatCeiling f) (roundDouble (floatCeiling f / 60)) readsAt >>=
      fun readBucket => TokenBucket.create (floatCeiling g) (roundDouble (floatCeiling g / 60)) writesAt >>=
      fun writeBucket => _) = _
    rw [hcreate, hcreate]
    rfl
  · obtain rfl := floatOfInt_eq_ok hr
    obtain rfl := floatOfInt_eq_ok hw
    cases kind with
    | read => exact ⟨⟨rfl, rfl⟩, rfl, Or.inl rfl⟩
    | write => exact ⟨⟨rfl, rfl⟩, rfl, Or.inr rfl⟩

/-- A budget is only made of limits that can be converted. -/
theorem Budget.fromAdvertisedFloat_eq_ok {r w : Int} {readsAt writesAt : ℚ} {budget : Budget}
    (h : Budget.fromAdvertisedFloat r w readsAt writesAt = .ok budget) :
    ∃ f g, floatOfInt r = .ok f ∧ floatOfInt w = .ok g ∧
      ∀ kind, (budget.bucket kind).Sized (kind.limit r w) ∧
        (budget.bucket kind).tokens = (budget.bucket kind).capacity ∧
        ((budget.bucket kind).updated = readsAt ∨ (budget.bucket kind).updated = writesAt) := by
  obtain ⟨f, hf, hrest⟩ := bind_eq_ok.mp h
  obtain ⟨g, hg, -⟩ := bind_eq_ok.mp hrest
  obtain ⟨budget', hmade, hfull⟩ := Budget.fromAdvertisedFloat_eq hf hg readsAt writesAt
  rw [h] at hmade
  cases hmade
  exact ⟨f, g, hf, hg, hfull⟩

@[simp] theorem Budget.bucket_setBucket_self (budget : Budget) (kind : Kind) (b : TokenBucket) :
    (budget.setBucket kind b).bucket kind = b := by
  cases kind with
  | read => rfl
  | write => rfl

theorem Budget.bucket_setBucket_ne {kind kind' : Kind} (h : kind' ≠ kind) (budget : Budget)
    (b : TokenBucket) : (budget.setBucket kind b).bucket kind' = budget.bucket kind' := by
  cases kind with
  | read =>
    cases kind' with
    | read => exact absurd rfl h
    | write => rfl
  | write =>
    cases kind' with
    | read => rfl
    | write => exact absurd rfl h

end FlopOffice.Technocore
