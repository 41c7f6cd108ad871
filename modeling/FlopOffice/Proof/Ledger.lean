/-
# FlopOffice.Proof.Ledger — `Ledger.append`.

An append validates, writes `meta` as JSON, refuses secrets, and only then opens a transaction: head
read, reference check, hash, insert. The transaction is a `Block`, so the same definition is run
alone, statement by statement against other connections, or with a database that fails half-way.

What the program takes from its surroundings, the random bits of the row's id and the two times, are
parameters of the call. `Activity` carries the declared types; its integers are `PyInt`, because a
`bool` passes for an `int` in Python and nothing in `append` tells them apart.
-/
import FlopOffice.Lib.Transaction
import FlopOffice.Proof.HashChain
import FlopOffice.Tools.SecretScan

namespace FlopOffice.Proof

open FlopOffice.Lib FlopOffice.Python FlopOffice.Storage FlopOffice.Tools

/-! ## Activities -/

def VALID_COST_UNITS : List PyStr := costUnits

/-- Activity types used in M1. -/
def ACTIVITY_TYPES : List PyStr :=
  [py "ledger.genesis", py "technocore.read", py "technocore.write.intent",
   py "technocore.write.result", py "technocore.write.failed",
   py "technocore_message_prepare_intent", py "technocore_message_signed_local",
   py "technocore_message_verified_local", py "technocore_message_publish_blocked",
   py "technocore_message_publish_result", py "identity.nonce.reserved", py "note"]

/-- One ledger entry, before chaining fields are assigned. -/
structure Activity where
  agentDid : PyStr
  activityType : PyStr
  occurredAt : PyStr
  taskId : Option PyStr := none
  refActivityId : Option PyStr := none
  tcRoom : Option PyStr := none
  tcSeq : Option PyInt := none
  tcNonce : Option PyInt := none
  signedPayloadHash : Option PyStr := none
  signature : Option PyStr := none
  resultHash : Option PyStr := none
  providerId : Option PyStr := none
  model : Option PyStr := none
  costAmount : Option PyStr := none
  costUnit : PyStr := py "NONE"
  metadata : Option PyVal := none

structure LedgerRecord where
  activityId : PyStr
  chainIndex : Int
  prevHash : Scalar
  entryHash : PyStr
  recordedAt : PyStr
  deriving DecidableEq

/-- `None`, or a string. -/
def strScalar : Option PyStr → Scalar
  | none => .none
  | some s => .str s

/-- `None`, or an integer as it was given: a `bool` stays one. -/
def intScalar : Option PyInt → Scalar
  | none => .none
  | some (.int i) => .int i
  | some (.bool b) => .bool b

/-- A value of the declared type `int | None` that is not a `bool`. -/
def PlainInt (x : Option PyInt) : Prop := ∀ b, x ≠ some (.bool b)

/-- Both integers of the activity are plain. -/
def Activity.PlainInts (a : Activity) : Prop := PlainInt a.tcSeq ∧ PlainInt a.tcNonce

variable [PyRuntime]

/-! ## Before the transaction -/

/-- `Ledger._validate`; the type of `costAmount` makes its last check vacuous. -/
def validate (a : Activity) : Except Exc Unit :=
  if a.agentDid = [] then .error ⟨.ledgerError, py "agent_did is required"⟩
  else if a.activityType ∉ ACTIVITY_TYPES then
    .error ⟨.ledgerError, py "unknown activity_type " ++ pyRepr a.activityType ++
      py "; add it to ACTIVITY_TYPES deliberately"⟩
  else if a.costUnit ∉ VALID_COST_UNITS then
    .error ⟨.ledgerError, py "cost_unit must be one of ['FLOP_TEST', 'NONE', 'USD']; " ++
      py "an untyped amount is not acceptable"⟩
  else if a.costAmount.isSome ∧ a.costUnit = py "NONE" then
    .error ⟨.ledgerError, py "cost_amount requires an explicit cost_unit"⟩
  else .ok ()

/-- The `meta_json` column. -/
def metaJson (a : Activity) : Except Exc (Option PyStr) :=
  match a.metadata with
  | none => .ok none
  | some v => (dumps v).map some

/-- The string values of `asdict(activity)`, in the order of the fields. -/
def stringColumns (a : Activity) : List PyStr :=
  [some a.agentDid, some a.activityType, some a.occurredAt, a.taskId, a.refActivityId, a.tcRoom,
   a.signedPayloadHash, a.signature, a.resultHash, a.providerId, a.model, a.costAmount,
   some a.costUnit].filterMap id

/-- `Ledger._refuse_secrets`. `asdict` copies `meta` and is not as deep as the JSON encoder; an empty
`meta_json` is not scanned. -/
def refuseSecrets (a : Activity) (metaJson : Option PyStr) : Except Exc Unit :=
  if (a.metadata.map nesting).getD 0 > PyRuntime.copyLimit then .error ⟨.recursionError, []⟩
  else
    let parts := stringColumns a ++ (metaJson.toList.filter fun t => !t.isEmpty)
    let findings := parts.flatMap fun t => scanText t (py "<ledger-write>")
    if findings = [] then .ok ()
    else
      let rules := (findings.map Finding.ruleId).dedup.insertionSort fun s t => strLe s t = true
      .error ⟨.secretMaterialRefused,
        py "refusing to write ledger row: value matched secret pattern(s) " ++ reprStrings rules ++
        py ". The matched text is not shown. The ledger stores hashes " ++
        py "and public artefacts only."⟩

/-- What `append` does before it opens its transaction; returns the `meta_json` column. -/
def prepare (a : Activity) : Except Exc (Option PyStr) := do
  validate a
  let meta_json ← metaJson a
  refuseSecrets a meta_json
  pure meta_json

/-! ## The transaction -/

/-- The row dict of an append, with `entry_hash` still missing. -/
def activityRow (a : Activity) (metaJson : Option PyStr) (activityId recordedAt : PyStr)
    (chainIndex : Int) (prevHash : Scalar) : Row
  | .activityId => .str activityId
  | .chainIndex => .int chainIndex
  | .agentDid => .str a.agentDid
  | .activityType => .str a.activityType
  | .taskId => strScalar a.taskId
  | .refActivityId => strScalar a.refActivityId
  | .tcRoom => strScalar a.tcRoom
  | .tcSeq => intScalar a.tcSeq
  | .tcNonce => intScalar a.tcNonce
  | .signedPayloadHash => strScalar a.signedPayloadHash
  | .signature => strScalar a.signature
  | .resultHash => strScalar a.resultHash
  | .providerId => strScalar a.providerId
  | .model => strScalar a.model
  | .costAmount => strScalar a.costAmount
  | .costUnit => .str a.costUnit
  | .occurredAt => .str a.occurredAt
  | .recordedAt => .str recordedAt
  | .metaJson => strScalar metaJson
  | .prevHash => prevHash
  | .entryHash => .none

/-- The position and the link of the next record. -/
def nextLink : Option ActivityRow → Except Exc (Int × Scalar)
  | none => .ok (0, .str GENESIS_PREV_HASH)
  | some head => (head .chainIndex).pyInt.map fun i => (i + 1, head.read .entryHash)

/-- `if activity.ref_activity_id is not None: ...` -/
def checkReference : Option PyStr → Block Database Exc Unit
  | none => pure ()
  | some ref => do
    let found ← Block.stmt fun db => (activityExists ref db).map fun b => (b, db)
    if found then pure ()
    else .throw ⟨.ledgerError, py "ref_activity_id " ++ ref ++ py " does not exist"⟩

/-- The body of the transaction. -/
def appendBlock (a : Activity) (metaJson : Option PyStr) (activityId recordedAt : PyStr) :
    Block Database Exc LedgerRecord := do
  let head ← Block.stmt fun db => .ok (selectHead db, db)
  let (chainIndex, prevHash) ← Block.lift (nextLink head)
  checkReference a.refActivityId
  let row := activityRow a metaJson activityId recordedAt chainIndex prevHash
  let entryHash ← Block.lift (computeEntryHash row)
  Block.stmt (insertActivity (Function.update row .entryHash (.str entryHash)))
  pure ⟨activityId, chainIndex, prevHash, entryHash, recordedAt⟩

/-- A call of `append`: the activity, and what the call draws from its surroundings. -/
structure AppendCall where
  activity : Activity
  uuidBits : Nat
  now : UtcTime

/-- `Ledger.append`: refused before the transaction, or a transaction. -/
def append (call : AppendCall) : Except Exc (Block Database Exc LedgerRecord) :=
  match prepare call.activity with
  | .ok meta_json =>
    .ok (appendBlock call.activity meta_json (uuid4 call.uuidBits) call.now.isoformat)
  | .error e => .error e

/-! ## What an append does -/

omit [PyRuntime] in
/-- The reference check passes exactly for no reference, or one to a record of the table. -/
theorem checkReference_run {ref : Option PyStr} {db db' : Database} :
    (checkReference ref).run db = .ok ((), db') ↔
      db' = db ∧ ∀ id, ref = some id →
        (∃ b, utf8 id = .ok b) ∧ ∃ r ∈ db.activities, r .activityId = .text id := by
  cases ref with
  | none => simp [checkReference, eq_comm]
  | some id =>
    have hany : (db.activities.any fun r => r .activityId == .text id) = true ↔
        ∃ r ∈ db.activities, r .activityId = .text id := by simp
    simp only [Option.some.injEq, forall_eq', ← hany]
    constructor
    · intro h
      obtain ⟨found, db₁, hf, h⟩ := Block.run_bind_eq_ok h
      rw [Block.run_stmt] at hf
      cases he : activityExists id db with
      | error e => rw [he] at hf; cases hf
      | ok b =>
        rw [he] at hf
        cases hf
        obtain ⟨hu, hb⟩ := activityExists_eq_ok.mp he
        cases found with
        | false => cases h
        | true =>
          cases h
          exact ⟨rfl, hu, hb.symm⟩
    · rintro ⟨rfl, hu, hb⟩
      have he : activityExists id db' = .ok true := activityExists_eq_ok.mpr ⟨hu, hb.symm⟩
      simp only [checkReference, Block.run_bind, Block.run_stmt, he, Except.map]
      rfl

/-- **What an append does**: an append that succeeds takes the next position after the head, refers
to a record of the table if to any, and adds exactly the bound row with the hash of its fields. -/
theorem appendBlock_run_eq_ok {a : Activity} {meta_json : Option PyStr} {id at_ : PyStr}
    {db db' : Database} {record : LedgerRecord} :
    (appendBlock a meta_json id at_).run db = .ok (record, db') ↔
      ∃ index prev hash r, nextLink (selectHead db) = .ok (index, prev) ∧
        (∀ ref, a.refActivityId = some ref →
          (∃ b, utf8 ref = .ok b) ∧ ∃ r ∈ db.activities, r .activityId = .text ref) ∧
        computeEntryHash (activityRow a meta_json id at_ index prev) = .ok hash ∧
        (∀ c, bindValue (Function.update (activityRow a meta_json id at_ index prev)
          .entryHash (.str hash) c) = .ok (r c)) ∧
        constraintsHold db.activities r = true ∧
        db' = { db with activities := db.activities ++ [r] } ∧
        record = ⟨id, index, prev, hash, at_⟩ := by
  constructor
  · intro h
    obtain ⟨head, _, hhead, h₁⟩ := Block.run_bind_eq_ok h
    rw [Block.run_stmt] at hhead
    cases hhead
    obtain ⟨⟨index, prev⟩, _, hlink, h₂⟩ := Block.run_bind_eq_ok h₁
    rw [Block.run_lift, map_eq_ok] at hlink
    obtain ⟨_, hlink, heq⟩ := hlink
    cases heq
    obtain ⟨_, _, hcheck, h₃⟩ := Block.run_bind_eq_ok h₂
    obtain ⟨rfl, href⟩ := checkReference_run.mp hcheck
    obtain ⟨hash, _, hhash, h₄⟩ := Block.run_bind_eq_ok h₃
    rw [Block.run_lift, map_eq_ok] at hhash
    obtain ⟨_, hhash, heq⟩ := hhash
    cases heq
    obtain ⟨_, _, hins, h₅⟩ := Block.run_bind_eq_ok h₄
    rw [Block.run_stmt] at hins
    obtain ⟨r, hbind, hcon, rfl⟩ := insertActivity_eq_ok_iff.mp hins
    cases h₅
    exact ⟨index, prev, hash, r, hlink, href, hhash, hbind, hcon, rfl, rfl⟩
  · rintro ⟨index, prev, hash, r, hlink, href, hhash, hbind, hcon, rfl, rfl⟩
    have hins := insertActivity_eq_ok_iff.mpr ⟨r, hbind, hcon, rfl⟩
    have hcheck := checkReference_run.mpr ⟨rfl, href⟩
    simp only [appendBlock, Block.run_bind, Block.run_stmt, Block.run_lift, hlink, hcheck, hhash,
      hins, Except.map, Block.run_pure]

end FlopOffice.Proof
