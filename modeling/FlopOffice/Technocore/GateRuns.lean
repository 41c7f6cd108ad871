/-
# FlopOffice.Technocore.GateRuns — the public write guard over whole histories.

A history is any sequence of calls: gates are created, sends are made with or without one of them, and
gates are consumed and closed directly. Between two calls everything but the gate objects may change.

A call that names a gate spends it, and a spent gate lets nothing out (`spent_over_runs`). The one
exception is a direct `consume` that cannot hash its text: it raises, and the gate is as open as before.
-/
import FlopOffice.Technocore.Client

namespace FlopOffice.Technocore

open FlopOffice.Identity FlopOffice.Lib FlopOffice.Python

/-! ## Calls -/

/-- A call, with what it raised or returned; a send also with the value of the environment variable and
the requests that went out. -/
inductive GateCall
  | create (gate : OneTimePublicWriteGate)
  | consume (i : Nat) (host : PyStr) (write : SignedWrite) (result : Except Exc Unit)
  | close (i : Nat)
  | send (client : TechnocoreClient) (write : SignedWrite) (publicGate : Option Nat)
      (flag : Option PyStr) (result : Except Exc PyVal) (urls : List PyStr)

namespace GateCall

/-- A request went out. -/
def Sends : GateCall → Prop
  | .send _ _ _ _ _ urls => urls ≠ []
  | _ => False

/-- The gate `i` let a request out. -/
def LetsOut (i : Nat) : GateCall → Prop
  | .send _ _ publicGate _ _ urls => publicGate = some i ∧ urls ≠ []
  | _ => False

instance (i : Nat) (call : GateCall) : Decidable (call.LetsOut i) := by
  cases call <;> unfold LetsOut <;> infer_instance

/-- The gate `i` was closed, or it was used, or it refused a write: a direct `consume` does one of the
last two, whatever it raises, and a send closes the gate at its end. -/
def Spends (i : Nat) : GateCall → Prop
  | .create _ => False
  | .consume j _ _ _ => j = i
  | .close j => j = i
  | .send _ _ publicGate _ _ _ => publicGate = some i

/-- What has to hold for a request to go out. -/
def Guarded (gates : List OneTimePublicWriteGate) : GateCall → Prop
  | .send client _ none flag _ _ =>
    client.host ∈ LOOPBACK_HOSTS ∧ flag = some (py "1")
  | .send client write (some i) _ _ _ => client.host ∈ PUBLIC_HOSTS ∧
      ∃ gate, gates[i]? = some gate ∧ client.host = gate.host ∧ write.room = gate.room ∧
        write.nonce.toInt = gate.nonce ∧
        ∃ data, utf8 write.sweptText = .ok data ∧ hexdigest data = gate.messageSha256
  | _ => True

/-- A direct `consume` of an open gate by a write that agrees with it in everything up to the hash, and
whose text has no hash. -/
def LeavesOpen [PyBuiltins] (gates : List OneTimePublicWriteGate) : GateCall → Prop
  | .consume i host write _ => ∃ gate, gates[i]? = some gate ∧ gate.isOpen ∧ gate.Unhashable host write
  | _ => False

end GateCall

/-! ## Steps -/

section Runs

variable [PyRuntime] [PyBuiltins] [Ed25519]

/-- What a call does to the gate objects. -/
def GateStep (gates : List OneTimePublicWriteGate) : GateCall → List OneTimePublicWriteGate → Prop
  | .create gate, gates' => gates' = gates ++ [gate] ∧ ∃ host room messageSha256 nonce confirm,
      OneTimePublicWriteGate.create host room messageSha256 nonce confirm = .ok gate
  | .consume i host write result, gates' => ∃ gate, gates[i]? = some gate ∧
      result = (gate.consume host write).1 ∧ gates' = gates.set i (gate.consume host write).2
  | .close i, gates' => ∃ gate, gates[i]? = some gate ∧ gates' = gates.set i gate.close
  | .send client write publicGate flag result urls, gates' =>
      (∀ i, publicGate = some i → i < gates.length) ∧ ∃ (M : Mode) (w w' : World),
        w.gates = gates ∧ w.environ WRITE_ENABLE_ENV = flag ∧
        Proc.Exec (answers M) (client.sendSignedMessage write publicGate) w result w' ∧
        w'.gates = gates' ∧ w'.trace = w.trace ++ urls.map .sent

/-- A sequence of calls. -/
inductive GateRun :
    List OneTimePublicWriteGate → List GateCall → List OneTimePublicWriteGate → Prop
  | nil {gates} : GateRun gates [] gates
  | cons {gates call mid calls gates'} : GateStep gates call mid → GateRun mid calls gates' →
      GateRun gates (call :: calls) gates'

/-- What a send that ended has done. -/
theorem sendStep_exit {gates gates' : List OneTimePublicWriteGate} {client : TechnocoreClient}
    {write : SignedWrite} {publicGate : Option Nat} {flag : Option PyStr} {result : Except Exc PyVal}
    {urls : List PyStr} (h : GateStep gates (.send client write publicGate flag result urls) gates') :
    ∃ w w' : World, w.gates = gates ∧ w.environ WRITE_ENABLE_ENV = flag ∧ w'.gates = gates' ∧
      TechnocoreClient.SendExit client write publicGate w result urls ∧
      TechnocoreClient.SendEnd publicGate urls w w' := by
  obtain ⟨-, M, w, w', hgates, hflag, hexec, hgates', htrace⟩ := h
  have hsafe : Proc.Safe (answers M) (fun _ => True) (fun r w' => ∃ urls,
      TechnocoreClient.SendExit client write publicGate w r urls ∧
      TechnocoreClient.SendEnd publicGate urls w w') (client.sendSignedMessage write publicGate) w :=
    TechnocoreClient.send_safe (fun _ _ => trivial) fun r urls w' hexit hend => ⟨urls, hexit, hend⟩
  obtain ⟨-, urls', hexit, hend⟩ := hsafe.exec hexec
  -- the trace tells which requests these were
  have hurls : urls' = urls := by
    have happend := List.append_cancel_left (hend.trace.symm.trans htrace)
    exact List.map_injective_iff.mpr (fun _ _ h => Event.sent.inj h) happend
  subst hurls
  exact ⟨w, w', hgates, hflag, hgates', hexit, hend⟩

/-- **No call opens a gate**, or changes what a gate was made for. -/
theorem gateStep_follows {gates gates' : List OneTimePublicWriteGate} {call : GateCall}
    (h : GateStep gates call gates') {i : Nat} {gate : OneTimePublicWriteGate}
    (hgate : gates[i]? = some gate) : ∃ gate', gates'[i]? = some gate' ∧ gate.Follows gate' := by
  have hset : ∀ (j : Nat) (g g' : OneTimePublicWriteGate), gates[j]? = some g → g.Follows g' →
      ∃ gate', (gates.set j g')[i]? = some gate' ∧ gate.Follows gate' := by
    intro j g g' hg hfollows
    have hframe : TechnocoreClient.GatesFrame (some j) gates _ := .set .rfl hg hfollows
    exact hframe.follows i gate hgate
  cases call with
  | create g =>
    obtain ⟨rfl, -⟩ := h
    have hlt := (List.getElem?_eq_some_iff.mp hgate).1
    exact ⟨gate, by rw [List.getElem?_append_left hlt, hgate], .refl gate⟩
  | consume j host write result =>
    obtain ⟨g, hg, -, rfl⟩ := h
    exact hset j g _ hg (g.follows_consume host write)
  | close j =>
    obtain ⟨g, hg, rfl⟩ := h
    exact hset j g _ hg g.follows_close
  | send client write publicGate flag result urls =>
    obtain ⟨w, w', rfl, -, rfl, -, hend⟩ := sendStep_exit h
    exact hend.gates.follows i gate hgate

/-- **A call that names a gate leaves it spent**, except for the `consume` that raises half-way. -/
theorem gateStep_spends {gates gates' : List OneTimePublicWriteGate} {call : GateCall}
    (h : GateStep gates call gates') {i : Nat} (hspends : call.Spends i)
    (hopen : ¬ call.LeavesOpen gates) : ∃ gate, gates'[i]? = some gate ∧ ¬ gate.isOpen := by
  cases call with
  | create g => exact hspends.elim
  | consume j host write result =>
    obtain ⟨g, hg, -, rfl⟩ := h
    cases hspends
    have hlt := (List.getElem?_eq_some_iff.mp hg).1
    refine ⟨_, List.getElem?_set_self hlt, fun hstill => hopen ?_⟩
    exact ⟨g, hg, OneTimePublicWriteGate.consume_isOpen hstill⟩
  | close j =>
    obtain ⟨g, hg, rfl⟩ := h
    cases hspends
    have hlt := (List.getElem?_eq_some_iff.mp hg).1
    exact ⟨_, List.getElem?_set_self hlt, g.not_isOpen_close⟩
  | send client write publicGate flag result urls =>
    have hlt := h.1 i hspends
    obtain ⟨w, w', rfl, -, rfl, -, hend⟩ := sendStep_exit h
    obtain ⟨g', hg', -⟩ := hend.gates.follows i _ (List.getElem?_eq_getElem hlt)
    refine ⟨g', hg', fun hstill => ?_⟩
    exact nomatch hstill.1.symm.trans (hend.closed i g' hspends hg')

omit [Ed25519] in
/-- The guard lets a write to a public host pass only through an open gate that admits it. -/
theorem guardResult_gate {client : TechnocoreClient} {write : SignedWrite} {i : Nat} {w : World}
    (h : client.guardResult write (some i) w = some (.ok ())) :
    client.host ∈ PUBLIC_HOSTS ∧ ∃ gate, w.gates[i]? = some gate ∧ gate.isOpen ∧
      gate.Admits client.host write := by
  unfold TechnocoreClient.guardResult at h
  dsimp only at h
  by_cases hpub : (!client.isPublic) = true
  · rw [if_pos hpub] at h
    cases h
  · rw [if_neg hpub] at h
    obtain ⟨gate, hgate, hok⟩ := Option.map_eq_some_iff.mp h
    have hmem : client.isPublic = true := by simpa using hpub
    exact ⟨of_decide_eq_true hmem, gate, hgate, OneTimePublicWriteGate.consume_eq_ok hok⟩

omit [Ed25519] [PyBuiltins] in
theorem localGuard_eq_ok {client : TechnocoreClient} {flag : Option PyStr}
    (h : client.localGuard flag = .ok ()) :
    client.host ∈ LOOPBACK_HOSTS ∧ flag = some (py "1") := by
  unfold TechnocoreClient.localGuard at h
  by_cases hpub : client.isPublic = true
  · rw [if_pos hpub] at h
    cases h
  rw [if_neg hpub] at h
  by_cases hloop : (!client.isLoopback) = true
  · rw [if_pos hloop] at h
    cases h
  rw [if_neg hloop] at h
  by_cases hflag : flag ≠ some (py "1")
  · rw [if_pos hflag] at h
    cases h
  · have hmem : client.isLoopback = true := by simpa using hloop
    exact ⟨of_decide_eq_true hmem, not_not.mp hflag⟩

/-- A request that went out through a gate went out while the gate was open. -/
theorem gateStep_letsOut {gates gates' : List OneTimePublicWriteGate} {call : GateCall}
    (h : GateStep gates call gates') {i : Nat} (hout : call.LetsOut i) :
    ∃ gate, gates[i]? = some gate ∧ gate.isOpen := by
  cases call with
  | send client write publicGate flag result urls =>
    obtain ⟨rfl, hne⟩ := hout
    obtain ⟨w, w', rfl, -, -, hexit, -⟩ := sendStep_exit h
    obtain ⟨-, hguard, -, -⟩ := hexit.allowed hne
    obtain ⟨-, gate, hgate, hopen, -⟩ := guardResult_gate hguard
    exact ⟨gate, hgate, hopen⟩
  | _ => exact hout.elim

omit [PyRuntime] [Ed25519] in
/-- Public hosts are in lower case. -/
theorem lower_publicHost {host : PyStr} (h : host ∈ PUBLIC_HOSTS) : PyBuiltins.lower host = host := by
  have hascii : ∀ s ∈ PUBLIC_HOSTS, (∀ c ∈ s, c.val < 128) ∧ s.map CodePoint.asciiLower = s := by
    decide
  obtain ⟨hlt, hmap⟩ := hascii host h
  rw [PyBuiltins.lower_ascii host hlt, hmap]

/-- **The guard**: what goes out was allowed to. -/
theorem gateStep_guarded {gates gates' : List OneTimePublicWriteGate} {call : GateCall}
    (h : GateStep gates call gates') (hsends : call.Sends) : call.Guarded gates := by
  cases call with
  | send client write publicGate flag result urls =>
    obtain ⟨w, w', rfl, rfl, -, hexit, -⟩ := sendStep_exit h
    obtain ⟨-, hguard, -, -⟩ := hexit.allowed hsends
    cases publicGate with
    | none => exact localGuard_eq_ok (Option.some.inj hguard)
    | some i =>
      obtain ⟨hpub, gate, hgate, -, hhost, hadmits⟩ := guardResult_gate hguard
      rw [lower_publicHost hpub] at hhost
      exact ⟨hpub, gate, hgate, hhost, hadmits⟩
  | _ => exact trivial

/-! ## Runs -/

/-- A gate that is not open lets nothing out any more. -/
theorem spent_over_run {gates gates' : List OneTimePublicWriteGate} {calls : List GateCall}
    (h : GateRun gates calls gates') {i : Nat} {gate : OneTimePublicWriteGate}
    (hgate : gates[i]? = some gate) (hspent : ¬ gate.isOpen) : ∀ c ∈ calls, ¬ c.LetsOut i := by
  induction h generalizing gate with
  | nil => exact nofun
  | cons hstep _ ih =>
    obtain ⟨gate', hgate', hfollows⟩ := gateStep_follows hstep hgate
    have hlater := ih hgate' fun hopen => hspent (hfollows.isOpen hopen)
    intro c hc
    rcases List.mem_cons.mp hc with rfl | hc
    · intro hout
      obtain ⟨g, hg, hopen⟩ := gateStep_letsOut hstep hout
      rw [hgate] at hg
      cases hg
      exact hspent hopen
    · exact hlater c hc

omit [PyRuntime] [PyBuiltins] [Ed25519] in
theorem GateCall.LetsOut.spends {i : Nat} {call : GateCall} (h : call.LetsOut i) : call.Spends i := by
  cases call with
  | send client write publicGate flag result urls => exact h.1
  | _ => exact h.elim

omit [PyRuntime] [Ed25519] in
theorem GateCall.LetsOut.not_leavesOpen {i : Nat} {call : GateCall} (h : call.LetsOut i)
    {gates : List OneTimePublicWriteGate} : ¬ call.LeavesOpen gates := by
  cases call with
  | send client write publicGate flag result urls => exact id
  | _ => exact h.elim

/-- At most one request goes out through a gate. -/
theorem letsOut_at_most_once {gates gates' : List OneTimePublicWriteGate} {calls : List GateCall}
    (h : GateRun gates calls gates') (i : Nat) :
    (calls.filter fun c => decide (c.LetsOut i)).length ≤ 1 := by
  induction h with
  | nil => exact Nat.zero_le 1
  | @cons gates call mid calls gates' hstep hrun ih =>
    by_cases hout : call.LetsOut i
    · obtain ⟨gate, hgate, hspent⟩ := gateStep_spends hstep hout.spends hout.not_leavesOpen
      have hrest : calls.filter (fun c => decide (c.LetsOut i)) = [] :=
        List.filter_eq_nil_iff.mpr fun c hc => by
          rw [decide_eq_true_eq]
          exact spent_over_run hrun hgate hspent c hc
      rw [List.filter_cons, hrest]
      split
      · exact Nat.le_refl 1
      · exact Nat.zero_le 1
    · rw [List.filter_cons, if_neg (by rwa [decide_eq_true_eq])]
      exact ih

/-- **The public write guard.** In every history, a request goes out only if the guard allows it, and at
most one goes out through a gate. Once a gate was closed, was used, or refused a write, it lets nothing
out, unless what it did was to raise half-way through a direct `consume`. -/
theorem public_write_guard :
    (∀ calls mid call gates', GateRun [] calls mid → GateStep mid call gates' →
      call.Sends → call.Guarded mid) ∧
    (∀ calls gates' i, GateRun [] calls gates' →
      (calls.filter fun c => decide (c.LetsOut i)).length ≤ 1) ∧
    ∀ pre mid call mid' post gates' i, GateRun [] pre mid → GateStep mid call mid' →
      GateRun mid' post gates' → call.Spends i → ¬ call.LeavesOpen mid → ∀ c ∈ post, ¬ c.LetsOut i := by
  refine ⟨?_, ?_, ?_⟩
  · intro _ _ _ _ _ hstep hsends
    exact gateStep_guarded hstep hsends
  · intro _ _ i hrun
    exact letsOut_at_most_once hrun i
  · intro _ _ _ _ _ _ i _ hstep hpost hspends hopen
    obtain ⟨gate, hgate, hspent⟩ := gateStep_spends hstep hspends hopen
    exact spent_over_run hpost hgate hspent

end Runs

section Lobby

attribute [local instance] asciiRuntime asciiBuiltins acceptAll

/-- A signed "hello" to the lobby. -/
def lobbyHello : SignedWrite where
  did := zeroHandle.did.did
  room := py "lobby"
  nonce := .int 5
  text := py "hello"
  sweptText := py "hello"
  signature := List.replicate 86 (cp 'A')
  payload := []

/-- The gate that is made for it. -/
def lobbyGate : OneTimePublicWriteGate where
  host := py "technocore.chat"
  room := py "lobby"
  messageSha256 := py "2cf24dba5fb0a30e26e83b2ac5b9e29e1b161e5c1fa7425e73043362938b9824"
  nonce := 5
  host_public := by decide

/-- The same write with a lone surrogate for its text. -/
def lobbySurrogate : SignedWrite := { lobbyHello with sweptText := [⟨0xD800, by decide⟩] }

def publicClient : TechnocoreClient := ⟨py "https://technocore.chat", py "technocore.chat"⟩

/-- A world with one gate, a full bucket and a server that answers `{}`. -/
def lobbyWorld : World where
  db := ⟨[], []⟩
  gates := [lobbyGate]
  writes := .oneToken
  clock := [0, 0]
  environ _ := none
  server := .ok emptyResponse
  trace := []

theorem lobbyGate_created : GateRun [] [.create lobbyGate] [lobbyGate] := by
  have hcreate : OneTimePublicWriteGate.create (py "technocore.chat") (py "lobby")
      (py "2cf24dba5fb0a30e26e83b2ac5b9e29e1b161e5c1fa7425e73043362938b9824") (.int 5) true =
        .ok lobbyGate := by
    decide +kernel
  exact .cons ⟨rfl, _, _, _, _, _, hcreate⟩ .nil

/-- A matching send goes out through the open gate. -/
theorem lobbyHello_goes_out : ∃ gates' urls result, urls ≠ [] ∧
    GateStep [lobbyGate] (.send publicClient lobbyHello (some 0) none result urls) gates' := by
  have hguard : publicClient.guardResult lobbyHello (some 0) lobbyWorld = some (.ok ()) := by
    decide
  have hgranted : (lobbyWorld.writes.acquire lobbyWorld.clock).1 = .granted := by
    decide +kernel
  obtain ⟨path, hpath⟩ : ∃ path, lobbyHello.path = .ok path := ⟨_, rfl⟩
  have hexit : TechnocoreClient.SendExit publicClient lobbyHello (some 0) lobbyWorld _ _ :=
    .sent (by decide) hguard (Prod.ext hgranted rfl) hpath
  obtain ⟨w', hexec, htrace⟩ := TechnocoreClient.send_exec (M := ⟨fun _ _ => True, True⟩) hexit
  refine ⟨w'.gates, [publicClient.baseUrl ++ path],
    TechnocoreClient.serverResult lobbyWorld.server, List.cons_ne_nil _ _, ?_, ?_⟩
  · intro i hi
    cases hi
    decide
  · exact ⟨_, lobbyWorld, w', rfl, rfl, hexec, rfl, htrace⟩

/-- A gate that raised on a write lets another one out. -/
theorem refused_gate_lets_out :
    ¬ ∀ pre mid call mid' post gates' i, GateRun [] pre mid → GateStep mid call mid' →
      GateRun mid' post gates' → call.Spends i → ∀ c ∈ post, ¬ c.LetsOut i := by
  intro hall
  obtain ⟨gates', urls, result, hne, hsend⟩ := lobbyHello_goes_out
  have hconsume : lobbyGate.consume (py "technocore.chat") lobbySurrogate =
      (.error ⟨.unicodeEncodeError, []⟩, lobbyGate) := by
    decide
  have hstep : GateStep [lobbyGate] (.consume 0 (py "technocore.chat") lobbySurrogate
      (lobbyGate.consume (py "technocore.chat") lobbySurrogate).1) [lobbyGate] := by
    refine ⟨lobbyGate, rfl, rfl, ?_⟩
    rw [hconsume]
    rfl
  exact hall _ _ _ _ _ gates' 0 lobbyGate_created hstep (.cons hsend .nil) rfl _ List.mem_cons_self
    ⟨rfl, hne⟩

/-- The same send, through the gate after it was closed. -/
theorem lobbyHello_refused : ∃ gates' result, GateStep [lobbyGate.close]
    (.send publicClient lobbyHello (some 0) none result []) gates' := by
  have hguard : ∃ e, publicClient.guardResult lobbyHello (some 0)
      { lobbyWorld with gates := [lobbyGate.close] } = some (.error e) := ⟨_, rfl⟩
  obtain ⟨e, hguard⟩ := hguard
  obtain ⟨w', hexec, htrace⟩ := TechnocoreClient.send_exec (M := ⟨fun _ _ => True, True⟩)
    (.refused (by decide) hguard)
  refine ⟨w'.gates, .error e, fun i hi => ?_, _, _, w', rfl, rfl, hexec, rfl, htrace⟩
  cases hi
  decide

/-- A send goes out through the open gate; once the gate is closed, it is refused. -/
theorem public_write_guard_lobby :
    (∃ urls result, urls ≠ [] ∧ (GateCall.send publicClient lobbyHello (some 0) none result
      urls).Guarded [lobbyGate]) ∧
    (∃ gates' result urls, GateStep [lobbyGate.close]
      (.send publicClient lobbyHello (some 0) none result urls) gates') ∧
    ∀ gates' result urls, GateStep [lobbyGate.close]
      (.send publicClient lobbyHello (some 0) none result urls) gates' → urls = [] := by
  have h := public_write_guard
  obtain ⟨gates', urls, result, hne, hsend⟩ := lobbyHello_goes_out
  obtain ⟨gates'', result', hrefused⟩ := lobbyHello_refused
  have hclose : GateStep [lobbyGate] (.close 0) [lobbyGate.close] := ⟨lobbyGate, rfl, rfl⟩
  refine ⟨⟨urls, result, hne, h.1 _ _ _ _ lobbyGate_created hsend hne⟩, ⟨gates'', result', [], hrefused⟩,
    fun gates' result urls hlater => ?_⟩
  have hno := h.2.2 _ _ _ _ _ _ 0 lobbyGate_created hclose (.cons hlater .nil) rfl id _ List.mem_cons_self
  exact by_contra fun hsent => hno ⟨rfl, hsent⟩

end Lobby

end FlopOffice.Technocore
