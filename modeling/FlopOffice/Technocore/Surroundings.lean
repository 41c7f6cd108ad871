/-
# FlopOffice.Technocore.Surroundings — what the write paths call, and what it answers.

The write paths are programs over these operations: the environment, the client's bucket and its HTTP
client, the gate objects, the clock, the ledger, the nonce store and the capability. A `World` is the
state the operations share; `answers` says what each of them does to it.

The database may be shared: `Mode.others` is what other connections may have done to it between two
operations. In a `calm` mode it accepts writes; otherwise an append or a reservation may fail at any
time for any reason, and then leaves nothing behind.
-/
import FlopOffice.Identity.Nonce
import FlopOffice.Lib.Process
import FlopOffice.Proof.LedgerRuns
import FlopOffice.Technocore.Gate
import FlopOffice.Technocore.RateLimit

namespace FlopOffice.Technocore

open FlopOffice.Identity FlopOffice.Lib FlopOffice.Proof FlopOffice.Python FlopOffice.Storage

/-! ## The operations -/

/-- The subclasses of `httpx.HTTPError`, and the class itself. -/
inductive HttpxError
  | HTTPError | RequestError | TransportError
  | TimeoutException | ConnectTimeout | ReadTimeout | WriteTimeout | PoolTimeout
  | NetworkError | ConnectError | ReadError | WriteError | CloseError
  | ProtocolError | LocalProtocolError | RemoteProtocolError
  | ProxyError | UnsupportedProtocol | DecodingError | TooManyRedirects | HTTPStatusError
  deriving DecidableEq, Repr

/-- `type(exc).__name__`. -/
def HttpxError.name : HttpxError → String
  | .HTTPError => "HTTPError"
  | .RequestError => "RequestError"
  | .TransportError => "TransportError"
  | .TimeoutException => "TimeoutException"
  | .ConnectTimeout => "ConnectTimeout"
  | .ReadTimeout => "ReadTimeout"
  | .WriteTimeout => "WriteTimeout"
  | .PoolTimeout => "PoolTimeout"
  | .NetworkError => "NetworkError"
  | .ConnectError => "ConnectError"
  | .ReadError => "ReadError"
  | .WriteError => "WriteError"
  | .CloseError => "CloseError"
  | .ProtocolError => "ProtocolError"
  | .LocalProtocolError => "LocalProtocolError"
  | .RemoteProtocolError => "RemoteProtocolError"
  | .ProxyError => "ProxyError"
  | .UnsupportedProtocol => "UnsupportedProtocol"
  | .DecodingError => "DecodingError"
  | .TooManyRedirects => "TooManyRedirects"
  | .HTTPStatusError => "HTTPStatusError"

/-- What `httpx.Client.get` raises: an `httpx.HTTPError`, or something else. `httpx.InvalidURL`, for a port
that is no number or a URL that is too long, is something else. -/
inductive GetError
  | http (e : HttpxError)
  | other (e : Exc) (foreign : e.cls ≠ .httpError ∧ e.cls.isTechnocoreError = false)

/-- The exception that is raised. -/
def GetError.exc : GetError → Exc
  | .http e => ⟨.httpError, py e.name⟩
  | .other e _ => e

/-- A response: its three-digit status, what decoding its body as JSON gives, and what decoding it as text
gives. The server names the encoding of the text, and not every codec it can name decodes to text. -/
structure Response where
  statusCode : Nat
  json : Except Exc PyVal
  text : Except Exc PyStr
  status_lt : statusCode < 1000
  json_error : ∀ e, json = .error e → e.cls.isValueError = true ∨ e.cls = .recursionError
  json_value : ∀ v, json = .ok v → v.isJson = true
  text_error : ∀ e, text = .error e → e.cls.isTechnocoreError = false

/-- The response that carries a JSON value. -/
def Response.ofJson (v : PyVal) (hv : v.isJson = true) : Response :=
  ⟨200, .ok v, .ok [], by decide, nofun, fun _ h => Except.ok.inj h ▸ hv, nofun⟩

/-- `{}` -/
def emptyResponse : Response := .ofJson (.record []) rfl

/-- An operation of the surroundings. -/
inductive Op
  | environ (name : PyStr)
  /-- `budget.writes.acquire()` -/
  | acquire
  /-- `httpx.Client.get` -/
  | get (url : PyStr)
  | newGate (gate : OneTimePublicWriteGate)
  | consume (gate : Nat) (host : PyStr) (write : SignedWrite)
  | close (gate : Nat)
  | utcNow
  | append (activity : Activity)
  | current (agentDid scope : PyStr)
  | reserve (agentDid scope : PyStr) (floor : Int)
  | sign (capability : CapabilitySigner) (room : PyStr) (nonce : PyInt) (text : PyStr)

/-- What an operation answers. -/
def Ans : Op → Type
  | .environ _ => Option PyStr
  | .acquire | .consume .. | .close _ => Unit
  | .get _ => Response
  | .newGate _ => Nat
  | .utcNow => PyStr
  | .append _ => LedgerRecord
  | .current .. | .reserve .. => Int
  | .sign .. => SignedMessage

/-- A program of the write paths. -/
abbrev Prog (α : Type) : Type := Proc Op Ans Exc α

/-! Each operation as a program, at the type of its answer. -/

/-- `os.environ.get(name)`. -/
def environGet (name : PyStr) : Prog (Option PyStr) := Proc.call (Op.environ name)

/-- `self._budget.writes.acquire()`. -/
def acquireWrite : Prog Unit := Proc.call Op.acquire

/-- `self._client.get(url)`. -/
def httpGet (url : PyStr) : Prog Response := Proc.call (Op.get url)

/-- A gate object. -/
def newGate (gate : OneTimePublicWriteGate) : Prog Nat := Proc.call (Op.newGate gate)

/-- `public_gate.consume(host=host, write=write)`. -/
def consumeGate (gate : Nat) (host : PyStr) (write : SignedWrite) : Prog Unit :=
  Proc.call (Op.consume gate host write)

/-- `public_gate.close()`. -/
def closeGate (gate : Nat) : Prog Unit := Proc.call (Op.close gate)

/-- `utc_now()`. -/
def utcNow : Prog PyStr := Proc.call Op.utcNow

/-- `ledger.append(activity)`. -/
def ledgerAppend (activity : Activity) : Prog LedgerRecord := Proc.call (Op.append activity)

/-- `nonces.current(did, scope)`. -/
def noncesCurrent (agentDid scope : PyStr) : Prog Int := Proc.call (Op.current agentDid scope)

/-- `nonces.reserve(did, scope, floor=floor).nonce`. -/
def noncesReserve (agentDid scope : PyStr) (floor : Int) : Prog Int :=
  Proc.call (Op.reserve agentDid scope floor)

/-- `capability.sign_technocore_message(room, nonce, text)`. -/
def signMessage (capability : CapabilitySigner) (room : PyStr) (nonce : PyInt) (text : PyStr) :
    Prog SignedMessage := Proc.call (Op.sign capability room nonce text)

/-- `raise exc`. -/
def throwExc {α : Type} (cls : ExcClass) (msg : String) : Prog α := .raise ⟨cls, py msg⟩

/-! ## The world -/

/-- What an observer sees, in order. -/
inductive Event
  /-- The capability was asked to sign. -/
  | signed (did room : PyStr) (nonce : PyInt)
  /-- A row was committed. -/
  | appended (activity : Activity) (record : LedgerRecord)
  /-- The HTTP client was called: at most one request went out. -/
  | sent (url : PyStr)

/-- The state the operations share. `clock` is what the bucket will read, `server` what the HTTP
client will get: a response, or an exception. -/
structure World where
  db : Database
  gates : List OneTimePublicWriteGate
  writes : TokenBucket
  clock : List ℚ
  environ : PyStr → Option PyStr
  server : Except GetError Response
  trace : List Event

/-- The rows a trace commits, with their activities. -/
def Event.appended? : Event → Option (Activity × LedgerRecord)
  | .appended a r => some (a, r)
  | _ => none

/-- The requests a trace sends. -/
def Event.sent? : Event → Option PyStr
  | .sent url => some url
  | _ => none

/-- Which database the programs run over. -/
structure Mode where
  others : Database → Database → Prop
  calm : Prop

section Semantics

variable [PyRuntime]

/-- An append that runs alone. -/
def appendAlone (call : AppendCall) (db : Database) : Except Exc LedgerRecord × Database :=
  match append call with
  | .error e => (.error e, db)
  | .ok block => match block.run db with
    | .ok (record, db') => (.ok record, db')
    | .error e => (.error e, db)

/-- A reservation that runs alone. -/
def reserveAlone (agentDid scope : PyStr) (floor : Int) (db : Database) : Except Exc Int × Database :=
  match reserve agentDid scope floor with
  | .error e => (.error e, db)
  | .ok block => match block.run db with
    | .ok (reservation, db') => (.ok reservation.nonce, db')
    | .error e => (.error e, db)

/-- What `append` itself has nothing against: it is not refused before the transaction, every value can
be bound, and the reference is to a record of the table. -/
def Appendable (a : Activity) (db : Database) : Prop :=
  (∃ metaJson, prepare a = .ok metaJson ∧
    ∀ bits (now : UtcTime), Bindable a metaJson (uuid4 bits) now.isoformat 0) ∧
  ∀ ref, a.refActivityId = some ref → ∃ r ∈ db.activities, r .activityId = .text ref

/-- The database accepts the row of a call, unless `append` itself has something against it. -/
def Accepts (call : AppendCall) (db : Database) : Prop :=
  Appendable call.activity db → ∃ record, (appendAlone call db).1 = .ok record

variable [PyBuiltins]

/-- What the operations do. -/
def answers (M : Mode) (w : World) : (op : Op) → Except Exc (Ans op) → World → Prop
  | .environ name, r, w' => r = .ok (w.environ name) ∧ w' = w
  | .acquire, r, w' => ∃ b, w' = { w with writes := b } ∧
      ((w.writes.acquire w.clock = (.granted, b) ∧ r = .ok ()) ∨
        ∃ t, w.writes.acquire w.clock = (.refused t, b) ∧ r = .error ⟨.rateLimitExceeded, []⟩)
  | .get url, r, w' => w' = { w with trace := w.trace ++ [.sent url] } ∧
      r = match w.server with
        | .ok response => .ok response
        | .error e => .error e.exc
  | .newGate gate, r, w' => r = .ok w.gates.length ∧ w' = { w with gates := w.gates ++ [gate] }
  | .consume i host write, r, w' => ∃ gate, w.gates[i]? = some gate ∧
      r = (gate.consume host write).1 ∧
      w' = { w with gates := w.gates.set i (gate.consume host write).2 }
  | .close i, r, w' => r = .ok () ∧
      w' = { w with gates := w.gates.modify i OneTimePublicWriteGate.close }
  | .utcNow, r, w' => w' = w ∧ ∃ t : UtcTime, r = .ok t.isoformat
  | .append a, r, w' => ∃ db, M.others w.db db ∧
      ((∃ bits now, (M.calm → Accepts ⟨a, bits, now⟩ db) ∧ r = (appendAlone ⟨a, bits, now⟩ db).1 ∧
          w' = { w with
            db := (appendAlone ⟨a, bits, now⟩ db).2
            trace := w.trace ++ match (appendAlone ⟨a, bits, now⟩ db).1 with
              | .ok record => [.appended a record]
              | .error _ => [] }) ∨
        (¬ M.calm ∧ (∃ e, r = .error e) ∧ w' = { w with db := db }))
  | .current agentDid scope, r, w' => ∃ db, M.others w.db db ∧
      r = current agentDid scope db ∧ w' = { w with db := db }
  | .reserve agentDid scope floor, r, w' => ∃ db, M.others w.db db ∧
      ((r = (reserveAlone agentDid scope floor db).1 ∧
          w' = { w with db := (reserveAlone agentDid scope floor db).2 }) ∨
        (¬ M.calm ∧ (∃ e, r = .error e) ∧ w' = { w with db := db }))
  | .sign capability room nonce text, r, w' =>
      w' = { w with trace := w.trace ++ [.signed capability.did.did room nonce] } ∧
      r = signTechnocoreMessage capability room nonce text

/-! ## The rule of each operation -/

variable {M : Mode} {w : World} {I : World → Prop}

@[simp] theorem safe_environGet {name : PyStr} {Q : Except Exc (Option PyStr) → World → Prop} :
    Proc.Safe (answers M) I Q (environGet name) w ↔ I w ∧ Q (.ok (w.environ name)) w := by
  refine Proc.safe_call.trans ⟨fun h => h.2 _ _ ⟨rfl, rfl⟩, fun h => ⟨h.1, ?_⟩⟩
  rintro _ _ ⟨rfl, rfl⟩
  exact h

@[simp] theorem safe_acquireWrite {Q : Except Exc Unit → World → Prop} :
    Proc.Safe (answers M) I Q acquireWrite w ↔ I w ∧
      (∀ b, w.writes.acquire w.clock = (.granted, b) →
        I { w with writes := b } ∧ Q (.ok ()) { w with writes := b }) ∧
      ∀ b t, w.writes.acquire w.clock = (.refused t, b) →
        I { w with writes := b } ∧ Q (.error ⟨.rateLimitExceeded, []⟩) { w with writes := b } := by
  refine Proc.safe_call.trans (and_congr_right fun _ => ⟨fun h => ⟨?_, ?_⟩, ?_⟩)
  · exact fun b hb => h _ _ ⟨b, rfl, Or.inl ⟨hb, rfl⟩⟩
  · exact fun b t hb => h _ _ ⟨b, rfl, Or.inr ⟨t, hb, rfl⟩⟩
  · rintro ⟨hgranted, hrefused⟩ _ _ ⟨b, rfl, ⟨hb, rfl⟩ | ⟨t, hb, rfl⟩⟩
    · exact hgranted b hb
    · exact hrefused b t hb

@[simp] theorem safe_httpGet {url : PyStr} {Q : Except Exc Response → World → Prop} :
    Proc.Safe (answers M) I Q (httpGet url) w ↔ I w ∧
      I { w with trace := w.trace ++ [.sent url] } ∧
      Q (match w.server with
        | .ok response => .ok response
        | .error e => .error e.exc) { w with trace := w.trace ++ [.sent url] } := by
  refine Proc.safe_call.trans (and_congr_right fun _ => ⟨fun h => h _ _ ⟨rfl, rfl⟩, ?_⟩)
  rintro h _ _ ⟨rfl, rfl⟩
  exact h

@[simp] theorem safe_newGate {gate : OneTimePublicWriteGate} {Q : Except Exc Nat → World → Prop} :
    Proc.Safe (answers M) I Q (newGate gate) w ↔ I w ∧ I { w with gates := w.gates ++ [gate] } ∧
      Q (.ok w.gates.length) { w with gates := w.gates ++ [gate] } := by
  refine Proc.safe_call.trans (and_congr_right fun _ => ⟨fun h => h _ _ ⟨rfl, rfl⟩, ?_⟩)
  rintro h _ _ ⟨rfl, rfl⟩
  exact h

@[simp] theorem safe_consumeGate {i : Nat} {host : PyStr} {write : SignedWrite}
    {Q : Except Exc Unit → World → Prop} :
    Proc.Safe (answers M) I Q (consumeGate i host write) w ↔ I w ∧ ∀ gate, w.gates[i]? = some gate →
      I { w with gates := w.gates.set i (gate.consume host write).2 } ∧
      Q (gate.consume host write).1 { w with gates := w.gates.set i (gate.consume host write).2 } := by
  refine Proc.safe_call.trans (and_congr_right fun _ => ⟨fun h gate hg => h _ _ ⟨gate, hg, rfl, rfl⟩, ?_⟩)
  rintro h _ _ ⟨gate, hg, rfl, rfl⟩
  exact h gate hg

@[simp] theorem safe_closeGate {i : Nat} {Q : Except Exc Unit → World → Prop} :
    Proc.Safe (answers M) I Q (closeGate i) w ↔ I w ∧
      I { w with gates := w.gates.modify i OneTimePublicWriteGate.close } ∧
      Q (.ok ()) { w with gates := w.gates.modify i OneTimePublicWriteGate.close } := by
  refine Proc.safe_call.trans (and_congr_right fun _ => ⟨fun h => h _ _ ⟨rfl, rfl⟩, ?_⟩)
  rintro h _ _ ⟨rfl, rfl⟩
  exact h

@[simp] theorem safe_utcNow {Q : Except Exc PyStr → World → Prop} :
    Proc.Safe (answers M) I Q utcNow w ↔ I w ∧ ∀ t : UtcTime, Q (.ok t.isoformat) w := by
  refine Proc.safe_call.trans ⟨fun h => ⟨h.1, fun t => (h.2 _ _ ⟨rfl, t, rfl⟩).2⟩, fun h => ⟨h.1, ?_⟩⟩
  rintro _ _ ⟨rfl, t, rfl⟩
  exact ⟨h.1, h.2 t⟩

/-- An append: a row is committed, or nothing is. In a calm mode the second only happens to what is not
appendable. -/
theorem safe_ledgerAppend {a : Activity} {Q : Except Exc LedgerRecord → World → Prop} (hw : I w)
    (hraised : ∀ db e, M.others w.db db → (M.calm → ¬ Appendable a db) →
      I { w with db := db } ∧ Q (.error e) { w with db := db })
    (hcommitted : ∀ db db' bits (now : UtcTime) metaJson record, M.others w.db db →
      prepare a = .ok metaJson →
      (appendBlock a metaJson (uuid4 bits) now.isoformat).run db = .ok (record, db') →
      let w' := { w with db := db', trace := w.trace ++ [.appended a record] }
      I w' ∧ Q (.ok record) w') :
    Proc.Safe (answers M) I Q (ledgerAppend a) w := by
  refine Proc.safe_call.mpr ⟨hw, ?_⟩
  rintro r w' ⟨db, hdb, ⟨bits, now, hcalm, rfl, rfl⟩ | ⟨hcalm, ⟨e, rfl⟩, rfl⟩⟩
  · -- an append that raises is not one the database accepted
    have hrefused : ∀ e, (appendAlone ⟨a, bits, now⟩ db).1 = .error e → M.calm → ¬ Appendable a db := by
      intro e he hm happ
      obtain ⟨record, hok⟩ := hcalm hm happ
      rw [he] at hok
      cases hok
    cases halone : appendAlone ⟨a, bits, now⟩ db with
    | mk out db' =>
      rw [halone] at hrefused
      unfold appendAlone append at halone
      dsimp only at halone hrefused ⊢
      cases hp : prepare a with
      | error e =>
        rw [hp] at halone
        cases halone
        rw [List.append_nil]
        exact hraised db e hdb (hrefused e rfl)
      | ok metaJson =>
        rw [hp] at halone
        dsimp only at halone
        cases hrun : (appendBlock a metaJson (uuid4 bits) now.isoformat).run db with
        | error e =>
          rw [hrun] at halone
          cases halone
          rw [List.append_nil]
          exact hraised db e hdb (hrefused e rfl)
        | ok out' =>
          rw [hrun] at halone
          cases halone
          exact hcommitted db _ bits now metaJson _ hdb hp hrun
  · exact hraised db e hdb fun hm => absurd hm hcalm

@[simp] theorem safe_noncesCurrent {did scope : PyStr} {Q : Except Exc Int → World → Prop} :
    Proc.Safe (answers M) I Q (noncesCurrent did scope) w ↔ I w ∧ ∀ db, M.others w.db db →
      I { w with db := db } ∧ Q (current did scope db) { w with db := db } := by
  refine Proc.safe_call.trans (and_congr_right fun _ => ⟨fun h db hdb => h _ _ ⟨db, hdb, rfl, rfl⟩, ?_⟩)
  rintro h _ _ ⟨db, hdb, rfl, rfl⟩
  exact h db hdb

omit [PyBuiltins] in
/-- A reservation that fails leaves the database as it is. -/
theorem reserveAlone_error {did scope : PyStr} {floor : Int} {db : Database} {e : Exc}
    (h : (reserveAlone did scope floor db).1 = .error e) : (reserveAlone did scope floor db).2 = db := by
  unfold reserveAlone at h ⊢
  split
  · rfl
  · rename_i block hblock
    rw [hblock] at h
    dsimp only at h
    split
    · rename_i hrun
      rw [hrun] at h
      cases h
    · rfl

/-- A reservation: what it does alone, or a failure. In a calm mode the second only happens where it fails
alone. -/
theorem safe_noncesReserve {did scope : PyStr} {floor : Int} {Q : Except Exc Int → World → Prop} (hw : I w)
    (hraised : ∀ db e, M.others w.db db → (M.calm → ∀ n, (reserveAlone did scope floor db).1 ≠ .ok n) →
      I { w with db := db } ∧ Q (.error e) { w with db := db })
    (hreserved : ∀ db n, M.others w.db db → (reserveAlone did scope floor db).1 = .ok n →
      let w' := { w with db := (reserveAlone did scope floor db).2 }
      I w' ∧ Q (.ok n) w') :
    Proc.Safe (answers M) I Q (noncesReserve did scope floor) w := by
  refine Proc.safe_call.mpr ⟨hw, ?_⟩
  rintro r w' ⟨db, hdb, ⟨rfl, rfl⟩ | ⟨hcalm, ⟨e, rfl⟩, rfl⟩⟩
  · cases hr : (reserveAlone did scope floor db).1 with
    | ok n => exact hreserved db n hdb hr
    | error e =>
      rw [reserveAlone_error hr]
      refine hraised db e hdb fun _ n hn => ?_
      rw [hr] at hn
      cases hn
  · exact hraised db e hdb fun hm => absurd hm hcalm

@[simp] theorem safe_signMessage {capability : CapabilitySigner} {room text : PyStr} {nonce : PyInt}
    {Q : Except Exc SignedMessage → World → Prop} :
    Proc.Safe (answers M) I Q (signMessage capability room nonce text) w ↔ I w ∧
      I { w with trace := w.trace ++ [.signed capability.did.did room nonce] } ∧
      Q (signTechnocoreMessage capability room nonce text)
        { w with trace := w.trace ++ [.signed capability.did.did room nonce] } := by
  refine Proc.safe_call.trans (and_congr_right fun _ => ⟨fun h => h _ _ ⟨rfl, rfl⟩, ?_⟩)
  rintro h _ _ ⟨rfl, rfl⟩
  exact h

end Semantics

end FlopOffice.Technocore
