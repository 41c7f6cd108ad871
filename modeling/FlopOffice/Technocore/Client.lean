/-
# FlopOffice.Technocore.Client — the guarded write.

`send_signed_message` verifies, asks the guard, takes a token, sends, and closes the gate whatever
happened. `SendExit` lists its exits, `SendReach` what it can have done to the world at any point of
it; `send_safe` says that these are all.
-/
import FlopOffice.Technocore.Surroundings

namespace FlopOffice.Technocore

open FlopOffice.Identity FlopOffice.Lib FlopOffice.Python

/-! ## The client -/

/-- A client; `host` is what `urlparse` reads off the base URL, in lower case. -/
structure TechnocoreClient where
  baseUrl : PyStr
  host : PyStr

namespace TechnocoreClient

def isPublic (client : TechnocoreClient) : Bool := client.host ∈ PUBLIC_HOSTS

def isLoopback (client : TechnocoreClient) : Bool := client.host ∈ LOOPBACK_HOSTS

variable [PyRuntime]

/-- `_assert_write_allowed`. -/
def assertWriteAllowed (client : TechnocoreClient) (write : SignedWrite) (publicGate : Option Nat) :
    Prog Unit :=
  match publicGate with
  | some gate =>
    if !client.isPublic then do
      closeGate gate
      throwExc .publicWriteRefused "one-time public publish gate may only be used for public hosts"
    else consumeGate gate client.host write
  | none =>
    if client.isPublic then
      .raise ⟨.publicWriteRefused, py "writes to " ++ client.host ++
        py " are blocked in M1. Posting the first " ++
        py "public signed message is a separate, explicitly approved step."⟩
    else if !client.isLoopback then
      .raise ⟨.publicWriteRefused,
        py "writes are only permitted against a loopback host; got " ++ pyRepr client.host⟩
    else do
      let flag ← environGet WRITE_ENABLE_ENV
      if flag ≠ some (py "1") then
        .raise ⟨.publicWriteRefused, py "set " ++ WRITE_ENABLE_ENV ++
          py "=1 to enable writes against a local instance"⟩
      else pure ()

/-- The value of a response: its JSON, or the start of its text. -/
def responseValue (response : Response) : Except Exc PyVal :=
  match response.json with
  | .ok v => .ok v
  | .error e =>
    if e.cls.isValueError then
      response.text.map fun text => .record [(py "raw", .leaf (.str (text.take 512)))]
    else .error e

/-- The request, and what its answer is taken for. -/
def request (client : TechnocoreClient) (write : SignedWrite) : Prog PyVal := do
  let response ← Proc.catch_ (do
      let path ← Proc.lift write.path
      httpGet (client.baseUrl ++ path))
    fun e =>
      if e.cls = .httpError then .raise ⟨.technocoreError, py "signed write failed: " ++ e.msg⟩
      else .raise e
  if response.statusCode ≥ 400 then
    .raise ⟨.technocoreError, py "signed write rejected with HTTP " ++
      decimalDigits response.statusCode⟩
  else .lift (responseValue response)

/-- `if public_gate is not None: public_gate.close()`. -/
def closeGiven : Option Nat → Prog Unit
  | some gate => closeGate gate
  | none => pure ()

/-- Send a prepared signed write. -/
def sendSignedMessage [Ed25519] (client : TechnocoreClient) (write : SignedWrite)
    (publicGate : Option Nat) : Prog PyVal :=
  .finally_ (do
      let verified ← Proc.lift write.verifies
      if !verified then
        throwExc .technocoreError "refusing to send a write that fails local verification"
      else do
        client.assertWriteAllowed write publicGate
        acquireWrite
        client.request write)
    (closeGiven publicGate)

/-! ## What the guard answers -/

/-- The guard without a gate. -/
def localGuard (client : TechnocoreClient) (flag : Option PyStr) : Except Exc Unit :=
  if client.isPublic then
    .error ⟨.publicWriteRefused, py "writes to " ++ client.host ++
      py " are blocked in M1. Posting the first " ++
      py "public signed message is a separate, explicitly approved step."⟩
  else if !client.isLoopback then
    .error ⟨.publicWriteRefused,
      py "writes are only permitted against a loopback host; got " ++ pyRepr client.host⟩
  else if flag ≠ some (py "1") then
    .error ⟨.publicWriteRefused, py "set " ++ WRITE_ENABLE_ENV ++
      py "=1 to enable writes against a local instance"⟩
  else .ok ()

variable [PyBuiltins]

/-- What the guard answers in the world `w`; nothing, if the gate does not exist. -/
def guardResult (client : TechnocoreClient) (write : SignedWrite) (publicGate : Option Nat)
    (w : World) : Option (Except Exc Unit) :=
  match publicGate with
  | some i =>
    if !client.isPublic then
      some (.error ⟨.publicWriteRefused,
        py "one-time public publish gate may only be used for public hosts"⟩)
    else (w.gates[i]?).map fun gate => (gate.consume client.host write).1
  | none => some (client.localGuard (w.environ WRITE_ENABLE_ENV))

omit [PyRuntime] in
/-- `gates'` are the objects `gates` at a later time, and all but `gate` are in the same state. -/
structure GatesFrame (gate : Option Nat) (gates gates' : List OneTimePublicWriteGate) : Prop where
  length : gates'.length = gates.length
  other : ∀ j, gate ≠ some j → gates'[j]? = gates[j]?
  follows : ∀ (j : Nat) (g : OneTimePublicWriteGate), gates[j]? = some g →
    ∃ g', gates'[j]? = some g' ∧ g.Follows g'

omit [PyRuntime] [PyBuiltins] in
theorem GatesFrame.rfl {gate : Option Nat} {gates : List OneTimePublicWriteGate} :
    GatesFrame gate gates gates :=
  ⟨Eq.refl _, fun _ _ => Eq.refl _, fun _ g hg => ⟨g, hg, .refl g⟩⟩

omit [PyRuntime] [PyBuiltins] in
/-- One more step of the object `gate`. -/
theorem GatesFrame.set {i : Nat} {gates gates' : List OneTimePublicWriteGate}
    {g g' : OneTimePublicWriteGate} (h : GatesFrame (some i) gates gates') (hg : gates'[i]? = some g)
    (hg' : g.Follows g') : GatesFrame (some i) gates (gates'.set i g') := by
  refine ⟨by rw [List.length_set, h.length], fun j hj => ?_, fun j g₀ hg₀ => ?_⟩
  · rw [List.getElem?_set_ne fun hij => hj (by rw [hij]), h.other j hj]
  · obtain ⟨g₁, hg₁, hfollows⟩ := h.follows j g₀ hg₀
    by_cases hij : i = j
    · subst hij
      rw [hg] at hg₁
      cases hg₁
      have hlt : i < gates'.length := (List.getElem?_eq_some_iff.mp hg).1
      exact ⟨g', List.getElem?_set_self hlt, hfollows.trans hg'⟩
    · exact ⟨g₁, by rw [List.getElem?_set_ne hij, hg₁], hfollows⟩

omit [PyRuntime] [PyBuiltins] in
theorem GatesFrame.close {i : Nat} {gates gates' : List OneTimePublicWriteGate}
    (h : GatesFrame (some i) gates gates') :
    GatesFrame (some i) gates (gates'.modify i OneTimePublicWriteGate.close) := by
  cases hg : gates'[i]? with
  | none =>
    rw [List.modify_eq_self (List.getElem?_eq_none_iff.mp hg)]
    exact h
  | some g =>
    obtain ⟨hlt, rfl⟩ := List.getElem?_eq_some_iff.mp hg
    have hset : gates'.modify i OneTimePublicWriteGate.close = gates'.set i gates'[i].close := by
      rw [List.modify_eq_set_getElem?, hg]
      simp
    rw [hset]
    exact h.set hg (OneTimePublicWriteGate.follows_close _)

/-- **The guard answers `guardResult`**, and changes nothing but its gate. -/
theorem assertWriteAllowed_safe {M : Mode} {client : TechnocoreClient} {write : SignedWrite}
    {publicGate : Option Nat} {w : World} {I : World → Prop} {Q : Except Exc Unit → World → Prop}
    (hI : ∀ gates, GatesFrame publicGate w.gates gates → I { w with gates := gates })
    (hQ : ∀ r gates, GatesFrame publicGate w.gates gates →
      client.guardResult write publicGate w = some r → Q r { w with gates := gates }) :
    Proc.Safe (answers M) I Q (client.assertWriteAllowed write publicGate) w := by
  have hw : I w := hI w.gates .rfl
  cases publicGate with
  | some i =>
    unfold assertWriteAllowed
    dsimp only
    rw [Proc.safe_ite]
    constructor
    · intro hpub
      have hclose : GatesFrame (some i) w.gates _ := GatesFrame.rfl.close
      have hI' := hI _ hclose
      rw [Proc.safe_bind, safe_closeGate]
      refine ⟨hw, hI', hI', hQ _ _ GatesFrame.rfl.close ?_⟩
      unfold guardResult
      exact if_pos hpub
    · intro hpub
      rw [safe_consumeGate]
      refine ⟨hw, fun gate hgate => ?_⟩
      have hset : GatesFrame (some i) w.gates _ :=
        GatesFrame.rfl.set hgate (gate.follows_consume client.host write)
      refine ⟨hI _ hset, hQ _ _ hset ?_⟩
      unfold guardResult
      dsimp only
      rw [if_neg hpub, hgate]
      rfl
  | none =>
    have hnone : ∀ r, client.localGuard (w.environ WRITE_ENABLE_ENV) = r → I w ∧ Q r w :=
      fun r hr => ⟨hw, hQ r w.gates .rfl (congrArg some hr)⟩
    unfold localGuard at hnone
    unfold assertWriteAllowed
    dsimp only
    rw [Proc.safe_ite]
    constructor
    · intro hpub
      exact hnone _ (if_pos hpub)
    intro hpub
    rw [if_neg hpub] at hnone
    rw [Proc.safe_ite]
    constructor
    · intro hloop
      exact hnone _ (if_pos hloop)
    intro hloop
    rw [if_neg hloop] at hnone
    rw [Proc.safe_bind, safe_environGet]
    refine ⟨hw, ?_⟩
    dsimp only
    rw [Proc.safe_ite]
    constructor
    · intro hflag
      exact hnone _ (if_pos hflag)
    · intro hflag
      exact hnone _ (if_neg hflag)

/-! ## What the request answers -/

/-- What the server's behaviour is taken for. -/
def serverResult (server : Except GetError Response) : Except Exc PyVal :=
  match server with
  | .error (.http e) => .error ⟨.technocoreError, py "signed write failed: " ++ py e.name⟩
  | .error (.other e _) => .error e
  | .ok response =>
    if response.statusCode ≥ 400 then
      .error ⟨.technocoreError, py "signed write rejected with HTTP " ++
        decimalDigits response.statusCode⟩
    else responseValue response

omit [PyRuntime] [PyBuiltins] in
theorem encodePathSegment_error {s : PyStr} {e : Exc} (h : encodePathSegment s = .error e) :
    e.cls.isValueError = true := by
  unfold encodePathSegment at h
  cases hu : utf8 s with
  | ok b =>
    rw [hu] at h
    cases h
  | error e' =>
    rw [hu] at h
    cases h
    exact isValueError_of_utf8 hu

omit [PyRuntime] [PyBuiltins] in
/-- A path fails in `str.encode` or in `str(int)`. -/
theorem path_error {write : SignedWrite} {e : Exc} (h : write.path = .error e) :
    e.cls.isValueError = true := by
  unfold SignedWrite.path at h
  rcases bind_eq_error.mp h with h | ⟨_, -, h⟩
  · exact encodePathSegment_error h
  rcases bind_eq_error.mp h with h | ⟨_, -, h⟩
  · exact encodePathSegment_error h
  rcases bind_eq_error.mp h with h | ⟨_, -, h⟩
  · exact encodePathSegment_error h
  rcases bind_eq_error.mp h with h | ⟨_, -, h⟩
  · cases hn : write.nonce with
    | bool b =>
      rw [hn] at h
      cases h
    | int i =>
      rw [hn] at h
      exact isValueError_of_strInt h
  rcases bind_eq_error.mp h with h | ⟨_, -, h⟩
  · exact encodePathSegment_error h
  · cases h

omit [PyRuntime] [PyBuiltins] in
theorem path_error_not_http {write : SignedWrite} {e : Exc} (h : write.path = .error e) :
    e.cls ≠ .httpError := by
  intro hc
  have hv := path_error h
  rw [hc] at hv
  cases hv

/-- **The request** sends once, and answers `serverResult`, unless the write has no path. -/
theorem request_safe {M : Mode} {client : TechnocoreClient} {write : SignedWrite} {w : World}
    {I : World → Prop} {Q : Except Exc PyVal → World → Prop} (hw : I w)
    (hpath : ∀ e, write.path = .error e → Q (.error e) w)
    (hsent : ∀ path, write.path = .ok path →
      let w' := { w with trace := w.trace ++ [.sent (client.baseUrl ++ path)] }
      I w' ∧ Q (serverResult w.server) w') :
    Proc.Safe (answers M) I Q (client.request write) w := by
  unfold request
  rw [Proc.safe_bind, Proc.safe_catch, Proc.safe_bind, Proc.safe_lift]
  refine ⟨hw, ?_⟩
  cases hp : write.path with
  | error e =>
    have hhttp := path_error_not_http hp
    dsimp only
    rw [Proc.safe_ite]
    exact ⟨hw, fun hc => absurd hc hhttp, fun _ => ⟨hw, hw, hpath e hp⟩⟩
  | ok path =>
    obtain ⟨hw', hQ⟩ := hsent path hp
    dsimp only
    rw [safe_httpGet]
    refine ⟨hw, hw', ?_⟩
    generalize ({ w with trace := w.trace ++ [.sent (client.baseUrl ++ path)] } : World) = w'
      at hw' hQ ⊢
    generalize w.server = server at hQ ⊢
    cases server with
    | error raised =>
      dsimp only
      rw [Proc.safe_ite]
      cases raised with
      | http name => exact ⟨fun _ => ⟨hw', hw', hQ⟩, fun hne => absurd rfl hne⟩
      | other e foreign => exact ⟨fun hhttp => absurd hhttp foreign.1, fun _ => ⟨hw', hw', hQ⟩⟩
    | ok response =>
      unfold serverResult at hQ
      dsimp only at hQ ⊢
      refine ⟨hw', ?_⟩
      rw [Proc.safe_ite]
      constructor
      · intro hstatus
        rw [if_pos hstatus] at hQ
        exact ⟨hw', hQ⟩
      · intro hstatus
        rw [if_neg hstatus] at hQ
        exact Proc.safe_lift.mpr ⟨hw', hQ⟩

/-! ## The send -/

/-- The exits of a send that starts in the world `w`, with the requests that went out before each. -/
inductive SendExit [Ed25519] (client : TechnocoreClient) (write : SignedWrite)
    (publicGate : Option Nat) (w : World) : Except Exc PyVal → List PyStr → Prop
  | unverifiable {e} : write.verifies = .error e →
      SendExit client write publicGate w (.error e) []
  | unverified : write.verifies = .ok false → SendExit client write publicGate w (.error
      ⟨.technocoreError, py "refusing to send a write that fails local verification"⟩) []
  | refused {e} : write.verifies = .ok true →
      client.guardResult write publicGate w = some (.error e) →
      SendExit client write publicGate w (.error e) []
  | limited {b t} : write.verifies = .ok true →
      client.guardResult write publicGate w = some (.ok ()) →
      w.writes.acquire w.clock = (.refused t, b) →
      SendExit client write publicGate w (.error ⟨.rateLimitExceeded, []⟩) []
  | unencodable {b e} : write.verifies = .ok true →
      client.guardResult write publicGate w = some (.ok ()) →
      w.writes.acquire w.clock = (.granted, b) → write.path = .error e →
      SendExit client write publicGate w (.error e) []
  | sent {b path} : write.verifies = .ok true →
      client.guardResult write publicGate w = some (.ok ()) →
      w.writes.acquire w.clock = (.granted, b) → write.path = .ok path →
      SendExit client write publicGate w (serverResult w.server) [client.baseUrl ++ path]

/-- What a send that started in `w` can have made of it, at any point. -/
structure SendReach [Ed25519] (client : TechnocoreClient) (write : SignedWrite)
    (publicGate : Option Nat) (w w' : World) : Prop where
  db : w'.db = w.db
  gates : GatesFrame publicGate w.gates w'.gates
  trace : w'.trace = w.trace ∨ ∃ r urls, SendExit client write publicGate w r urls ∧
    w'.trace = w.trace ++ urls.map .sent

/-- What has become of `w` when a send ends. -/
structure SendEnd (publicGate : Option Nat) (urls : List PyStr) (w w' : World) : Prop where
  db : w'.db = w.db
  gates : GatesFrame publicGate w.gates w'.gates
  trace : w'.trace = w.trace ++ urls.map .sent
  closed : ∀ (i : Nat) (gate : OneTimePublicWriteGate),
    publicGate = some i → w'.gates[i]? = some gate → gate.closed = true

/-- **The send**: at every point the world is within reach, and at every exit the gate is closed. -/
theorem send_safe [Ed25519] {M : Mode} {client : TechnocoreClient} {write : SignedWrite}
    {publicGate : Option Nat} {w : World} {I : World → Prop} {Q : Except Exc PyVal → World → Prop}
    (hI : ∀ w', SendReach client write publicGate w w' → I w')
    (hQ : ∀ r urls w', SendExit client write publicGate w r urls → SendEnd publicGate urls w w' →
      Q r w') :
    Proc.Safe (answers M) I Q (client.sendSignedMessage write publicGate) w := by
  unfold sendSignedMessage
  rw [Proc.safe_finally]
  -- whatever the body ends with, the gate is closed next
  have hclose : ∀ r urls w', SendExit client write publicGate w r urls → w'.db = w.db →
      GatesFrame publicGate w.gates w'.gates → w'.trace = w.trace ++ urls.map .sent →
      Proc.Safe (answers M) I (fun rq w'' => I w'' ∧ Q (rq.bind fun _ => r) w'') (closeGiven publicGate)
        w' := by
    intro r urls w' hexit hdb hgates htrace
    have hreach := hI w' ⟨hdb, hgates, Or.inr ⟨r, urls, hexit, htrace⟩⟩
    cases publicGate with
    | none => exact ⟨hreach, hreach, hQ r urls w' hexit ⟨hdb, hgates, htrace, nofun⟩⟩
    | some i =>
      have hreach' := hI { w' with gates := w'.gates.modify i OneTimePublicWriteGate.close }
        ⟨hdb, hgates.close, Or.inr ⟨r, urls, hexit, htrace⟩⟩
      unfold closeGiven
      rw [safe_closeGate]
      refine ⟨hreach, hreach', hreach', hQ r urls _ hexit ⟨hdb, hgates.close, htrace, ?_⟩⟩
      intro j gate hj hgate
      cases hj
      rw [List.getElem?_modify_eq] at hgate
      obtain ⟨g, -, rfl⟩ := Option.map_eq_some_iff.mp hgate
      rfl
  have hquiet : w.trace = w.trace ++ ([] : List PyStr).map .sent := (List.append_nil _).symm
  have hstart : I w := hI w ⟨rfl, .rfl, Or.inl rfl⟩
  rw [Proc.safe_bind, Proc.safe_lift]
  refine ⟨hstart, ?_⟩
  cases hv : write.verifies with
  | error e => exact ⟨hstart, hclose _ _ w (.unverifiable hv) rfl .rfl hquiet⟩
  | ok verified =>
    dsimp only
    rw [Proc.safe_ite]
    cases verified with
    | false =>
      refine ⟨fun _ => ⟨hstart, ?_⟩, fun h => absurd rfl h⟩
      exact hclose _ _ w (.unverified hv) rfl .rfl hquiet
    | true =>
      refine ⟨nofun, fun _ => ?_⟩
      rw [Proc.safe_bind]
      refine assertWriteAllowed_safe (fun gates hg => hI _ ⟨rfl, hg, Or.inl rfl⟩) ?_
      intro r gates hg hguard
      have hreach := hI { w with gates := gates } ⟨rfl, hg, Or.inl rfl⟩
      cases r with
      | error e => exact ⟨hreach, hclose _ _ _ (.refused hv hguard) rfl hg hquiet⟩
      | ok u =>
        dsimp only
        rw [Proc.safe_bind, safe_acquireWrite]
        refine ⟨hreach, fun b hb => ?_, fun b t hb => ?_⟩
        · have hreach' := hI { w with gates := gates, writes := b } ⟨rfl, hg, Or.inl rfl⟩
          refine ⟨hreach', request_safe hreach' (fun e he => ?_) fun path hpath => ⟨?_, ?_⟩⟩
          · exact hclose _ _ _ (.unencodable hv hguard hb he) rfl hg hquiet
          · exact hI _ ⟨rfl, hg, Or.inr ⟨_, _, .sent hv hguard hb hpath, rfl⟩⟩
          · exact hclose _ _ _ (.sent hv hguard hb hpath) rfl hg rfl
        · have hreach' := hI { w with gates := gates, writes := b } ⟨rfl, hg, Or.inl rfl⟩
          exact ⟨hreach', hreach', hclose _ _ _ (.limited hv hguard hb) rfl hg hquiet⟩

theorem SendExit.urls_length [Ed25519] {client : TechnocoreClient} {write : SignedWrite}
    {publicGate : Option Nat} {w : World} {r : Except Exc PyVal} {urls : List PyStr}
    (h : SendExit client write publicGate w r urls) : urls.length ≤ 1 := by
  cases h <;> simp

/-- Nothing goes out that does not verify, or that the guard does not allow. -/
theorem SendExit.allowed [Ed25519] {client : TechnocoreClient} {write : SignedWrite}
    {publicGate : Option Nat} {w : World} {r : Except Exc PyVal} {urls : List PyStr}
    (h : SendExit client write publicGate w r urls) (hne : urls ≠ []) :
    write.verifies = .ok true ∧ client.guardResult write publicGate w = some (.ok ()) ∧
      r = serverResult w.server ∧ ∃ path, write.path = .ok path ∧ urls = [client.baseUrl ++ path] := by
  cases h with
  | sent hv hguard _ hpath => exact ⟨hv, hguard, rfl, _, hpath, rfl⟩
  | _ => exact absurd rfl hne

/-- What goes out is the write. -/
theorem SendExit.of_mem [Ed25519] {client : TechnocoreClient} {write : SignedWrite}
    {publicGate : Option Nat} {w : World} {r : Except Exc PyVal} {urls : List PyStr}
    (h : SendExit client write publicGate w r urls) {url : PyStr} (hurl : url ∈ urls) :
    write.verifies = .ok true ∧ ∃ path, write.path = .ok path ∧ url = client.baseUrl ++ path := by
  obtain ⟨hv, -, -, path, hpath, hurls⟩ := h.allowed (List.ne_nil_of_mem hurl)
  rw [hurls] at hurl
  exact ⟨hv, path, hpath, List.mem_singleton.mp hurl⟩

/-! ## The exits are taken -/

omit [PyBuiltins] in
theorem closeGiven_exec {M : Mode} [PyBuiltins] (publicGate : Option Nat) (w : World) :
    ∃ w', Proc.Exec (answers M) (closeGiven publicGate) w (.ok ()) w' ∧ w'.trace = w.trace := by
  cases publicGate with
  | none => exact ⟨w, .refl, rfl⟩
  | some i => exact ⟨_, Proc.exec_call ⟨rfl, rfl⟩, rfl⟩

theorem assertWriteAllowed_exec {M : Mode} {client : TechnocoreClient} {write : SignedWrite}
    {publicGate : Option Nat} {w : World} {r : Except Exc Unit}
    (h : client.guardResult write publicGate w = some r) :
    ∃ gates, Proc.Exec (answers M) (client.assertWriteAllowed write publicGate) w r
      { w with gates := gates } := by
  unfold guardResult at h
  unfold assertWriteAllowed
  cases publicGate with
  | some i =>
    dsimp only at h ⊢
    by_cases hpub : (!client.isPublic) = true
    · rw [if_pos hpub] at h ⊢
      cases h
      exact ⟨_, .bind (Proc.exec_call ⟨rfl, rfl⟩) .refl⟩
    · rw [if_neg hpub] at h ⊢
      obtain ⟨gate, hgate, rfl⟩ := Option.map_eq_some_iff.mp h
      exact ⟨_, Proc.exec_call ⟨gate, hgate, rfl, rfl⟩⟩
  | none =>
    refine ⟨w.gates, ?_⟩
    dsimp only at h ⊢
    cases h
    unfold localGuard
    by_cases hpub : client.isPublic = true
    · rw [if_pos hpub, if_pos hpub]
      exact .refl
    rw [if_neg hpub, if_neg hpub]
    by_cases hloop : (!client.isLoopback) = true
    · rw [if_pos hloop, if_pos hloop]
      exact .refl
    rw [if_neg hloop, if_neg hloop]
    refine .bind (Proc.exec_call ⟨rfl, rfl⟩) ?_
    by_cases hflag : w.environ WRITE_ENABLE_ENV ≠ some (py "1")
    · rw [if_pos hflag, if_pos hflag]
      exact .refl
    · rw [if_neg hflag, if_neg hflag]
      exact .refl

theorem acquireWrite_granted {M : Mode} {w : World} {gates : List OneTimePublicWriteGate}
    {b : TokenBucket} (h : w.writes.acquire w.clock = (.granted, b)) :
    Proc.Exec (answers M) acquireWrite { w with gates := gates } (.ok ())
      { w with gates := gates, writes := b } :=
  Proc.exec_call ⟨b, rfl, Or.inl ⟨h, rfl⟩⟩

theorem acquireWrite_refused {M : Mode} {w : World} {gates : List OneTimePublicWriteGate}
    {b : TokenBucket} {t : ℚ} (h : w.writes.acquire w.clock = (.refused t, b)) :
    Proc.Exec (answers M) acquireWrite { w with gates := gates } (.error ⟨.rateLimitExceeded, []⟩)
      { w with gates := gates, writes := b } :=
  Proc.exec_call ⟨b, rfl, Or.inr ⟨t, h, rfl⟩⟩

theorem request_exec_error {M : Mode} {client : TechnocoreClient} {write : SignedWrite} {w : World}
    {e : Exc} (h : write.path = .error e) :
    Proc.Exec (answers M) (client.request write) w (.error e) w := by
  unfold request
  rw [h]
  refine .bind_error (.catch_error (.bind_error Proc.exec_lift) ?_)
  rw [if_neg (path_error_not_http h)]
  exact .refl

theorem request_exec {M : Mode} {client : TechnocoreClient} {write : SignedWrite} {w : World}
    {path : PyStr} (h : write.path = .ok path) :
    Proc.Exec (answers M) (client.request write) w (serverResult w.server)
      { w with trace := w.trace ++ [.sent (client.baseUrl ++ path)] } := by
  unfold request
  rw [h]
  generalize hw : ({ w with trace := w.trace ++ [.sent (client.baseUrl ++ path)] } : World) = w'
  cases hserver : w.server with
  | error raised =>
    cases raised with
    | http name =>
      have hget : Proc.Exec (answers M) (httpGet (client.baseUrl ++ path)) w
          (.error ⟨.httpError, py name.name⟩) w' :=
        Proc.exec_call ⟨hw.symm, by rw [hserver]; rfl⟩
      refine .bind_error (.catch_error (.bind Proc.exec_lift hget) ?_)
      rw [if_pos rfl]
      exact .refl
    | other e foreign =>
      have hget : Proc.Exec (answers M) (httpGet (client.baseUrl ++ path)) w (.error e) w' :=
        Proc.exec_call ⟨hw.symm, by rw [hserver]; rfl⟩
      refine .bind_error (.catch_error (.bind Proc.exec_lift hget) ?_)
      rw [if_neg foreign.1]
      exact .refl
  | ok response =>
    have hget : Proc.Exec (answers M) (httpGet (client.baseUrl ++ path)) w (.ok response) w' :=
      Proc.exec_call ⟨hw.symm, by rw [hserver]; rfl⟩
    refine .bind (.catch_ok (.bind Proc.exec_lift hget)) ?_
    unfold serverResult
    dsimp only
    split
    · exact .refl
    · exact Proc.exec_lift

/-- **Every exit is taken.** -/
theorem send_exec [Ed25519] {M : Mode} {client : TechnocoreClient} {write : SignedWrite}
    {publicGate : Option Nat} {w : World} {r : Except Exc PyVal} {urls : List PyStr}
    (h : SendExit client write publicGate w r urls) :
    ∃ w', Proc.Exec (answers M) (client.sendSignedMessage write publicGate) w r w' ∧
      w'.trace = w.trace ++ urls.map .sent := by
  -- the body decides, and closing the gate changes nothing it has decided
  have hbody : ∀ {p : Prog PyVal} {w'}, Proc.Exec (answers M) p w r w' →
      w'.trace = w.trace ++ urls.map .sent →
      ∃ w'', Proc.Exec (answers M) (p.finally_ (closeGiven publicGate)) w r w'' ∧
        w''.trace = w.trace ++ urls.map .sent := by
    intro p w' hp htrace
    obtain ⟨w'', hclose, htrace'⟩ := closeGiven_exec (M := M) publicGate w'
    exact ⟨w'', hp.finally_ok hclose, htrace'.trans htrace⟩
  have hquiet : w.trace = w.trace ++ ([] : List PyStr).map .sent := (List.append_nil _).symm
  have hlift : ∀ {v}, write.verifies = v →
      Proc.Exec (answers M) (Proc.lift write.verifies : Prog Bool) w v w :=
    fun hv => hv ▸ Proc.exec_lift
  unfold sendSignedMessage
  cases h with
  | unverifiable hv => exact hbody (.bind_error (hlift hv)) hquiet
  | unverified hv => exact hbody (.bind (hlift hv) .refl) hquiet
  | refused hv hguard =>
    obtain ⟨gates, hg⟩ := assertWriteAllowed_exec (M := M) hguard
    exact hbody (.bind (hlift hv) (.bind_error hg)) hquiet
  | limited hv hguard hb =>
    obtain ⟨gates, hg⟩ := assertWriteAllowed_exec (M := M) hguard
    exact hbody (.bind (hlift hv) (.bind hg (.bind_error (acquireWrite_refused hb)))) hquiet
  | @unencodable b e hv hguard hb hpath =>
    obtain ⟨gates, hg⟩ := assertWriteAllowed_exec (M := M) hguard
    have hreq : Proc.Exec (answers M) (client.request write) { w with gates := gates, writes := b }
        (.error e) { w with gates := gates, writes := b } := request_exec_error hpath
    exact hbody (.bind (hlift hv) (.bind hg (.bind (acquireWrite_granted hb) hreq))) hquiet
  | @sent b path hv hguard hb hpath =>
    obtain ⟨gates, hg⟩ := assertWriteAllowed_exec (M := M) hguard
    have hreq : Proc.Exec (answers M) (client.request write) { w with gates := gates, writes := b }
        (serverResult w.server) { w with
          gates := gates, writes := b, trace := w.trace ++ [.sent (client.baseUrl ++ path)] } :=
      request_exec hpath
    exact hbody (.bind (hlift hv) (.bind hg (.bind (acquireWrite_granted hb) hreq))) rfl

/-- Every exit is taken, leaves the database alone, and makes no gate. -/
theorem send_exec_db [Ed25519] {M : Mode} {client : TechnocoreClient} {write : SignedWrite}
    {publicGate : Option Nat} {w : World} {r : Except Exc PyVal} {urls : List PyStr}
    (h : SendExit client write publicGate w r urls) :
    ∃ w', Proc.Exec (answers M) (client.sendSignedMessage write publicGate) w r w' ∧
      w'.db = w.db ∧ w'.gates.length = w.gates.length ∧ w'.trace = w.trace ++ urls.map .sent := by
  obtain ⟨w', hexec, htrace⟩ := send_exec (M := M) h
  have hsafe : Proc.Safe (answers M) (fun _ => True)
      (fun _ w' => w'.db = w.db ∧ w'.gates.length = w.gates.length)
      (client.sendSignedMessage write publicGate) w :=
    send_safe (fun _ _ => trivial) fun _ _ _ _ hend => ⟨hend.db, hend.gates.length⟩
  obtain ⟨hdb, hgates⟩ := (hsafe.exec hexec).2
  exact ⟨w', hexec, hdb, hgates, htrace⟩

end TechnocoreClient

end FlopOffice.Technocore
