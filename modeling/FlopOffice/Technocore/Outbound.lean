/-
# FlopOffice.Technocore.Outbound — intent before the network, result after.

`send_and_record` appends an intent, sends, and appends a row that refers to it: a result if the send
returned, a failure if it raised a `TechnocoreError`. Whatever else is raised between the two rows, by
the send or by the computation of the second row, leaves the intent dangling.
-/
import FlopOffice.Technocore.Recorded

namespace FlopOffice.Technocore

open FlopOffice.Identity FlopOffice.Lib FlopOffice.Proof FlopOffice.Python FlopOffice.Storage

/-! ## Rows -/

structure OutboundResult where
  intentActivityId : PyStr
  resultActivityId : PyStr
  delivered : Bool
  tcSeq : Option PyInt
  detail : Option PyStr := none

/-- What the three activities of a write have in common. -/
def writeActivity (write : SignedWrite) (activityType : String) (taskId : Option PyStr)
    (occurredAt : PyStr) : Activity where
  agentDid := write.did
  activityType := py activityType
  occurredAt := occurredAt
  taskId := taskId
  tcRoom := some write.room
  tcNonce := some write.nonce
  signature := some write.signature

/-- The activity of `record_intent`. -/
def intentActivity (write : SignedWrite) (taskId : Option PyStr) (occurredAt : PyStr) : Activity :=
  { writeActivity write "technocore.write.intent" taskId occurredAt with
    signedPayloadHash := some (hexdigest write.payload)
    metadata := some (.record [(py "swept_len", .leaf (.int write.sweptText.length))]) }

/-- The activity of a send that raised. -/
def failedActivity (write : SignedWrite) (taskId : Option PyStr) (intentId : PyStr) (e : Exc)
    (occurredAt : PyStr) : Activity :=
  { writeActivity write "technocore.write.failed" taskId occurredAt with
    refActivityId := some intentId
    metadata := some (.record
      [textItem "error" (technocoreErrorName e), textItem "detail" (e.msg.take 300)]) }

/-- The activity of a send that returned. -/
def deliveredActivity (write : SignedWrite) (taskId : Option PyStr) (intentId : PyStr)
    (seq : Option PyInt) (hash : Option PyStr) (occurredAt : PyStr) : Activity :=
  { writeActivity write "technocore.write.result" taskId occurredAt with
    refActivityId := some intentId
    tcSeq := seq
    resultHash := hash }

section Response

variable [PyRuntime] [PyBuiltins]

/-- `repr` of a key and its value as a tuple. -/
def reprPair (depth : Nat) (kv : Scalar × PyVal) : Except Exc PyStr := do
  let k ← reprScalar kv.1
  let v ← reprVal depth kv.2
  pure (cp '(' :: (k ++ py ", " ++ v ++ [cp ')']))

/-- `repr(sorted(d.items()))`: the list and its tuples are two levels of containers. -/
def reprSortedItems (items : List (Scalar × PyVal)) : Except Exc PyStr := do
  let sorted ← sortItems items
  let parts ← sorted.mapM (reprPair (PyRuntime.recursionLimit - 2))
  pure (cp '[' :: (List.intercalate (py ", ") parts ++ [cp ']']))

/-- The `result_hash` of a response. -/
def outboundHash : PyVal → Except Exc (Option PyStr)
  | .dict items => do
    let text ← reprSortedItems items
    let data ← utf8 text
    pure (some (hexdigest data))
  | _ => .ok none

/-- The `tc_seq` of a response: `int(seq)`, if it is an `int`. -/
def outboundSeq : PyVal → Option PyInt
  | .dict items => (asInt (PyVal.get (.dict items) (py "seq"))).map fun seq => .int seq.toInt
  | _ => none

end Response

/-! ## Programs -/

section Programs

variable [PyRuntime] [PyBuiltins]

/-- Append the intent row. -/
def recordIntent (write : SignedWrite) (taskId : Option PyStr := none) : Prog PyStr := do
  let t ← utcNow
  let record ← ledgerAppend (intentActivity write taskId t)
  pure record.activityId

/-- The row of a send that raised. -/
def recordFailed (write : SignedWrite) (taskId : Option PyStr) (intentId : PyStr) (e : Exc) :
    Prog OutboundResult := do
  let t ← utcNow
  let failure ← ledgerAppend (failedActivity write taskId intentId e t)
  pure ⟨intentId, failure.activityId, false, none, some e.msg⟩

/-- The row of a send that returned. -/
def recordDelivered (write : SignedWrite) (taskId : Option PyStr) (intentId : PyStr)
    (response : PyVal) : Prog OutboundResult := do
  let hash ← Proc.lift (outboundHash response)
  let t ← utcNow
  let result ← ledgerAppend
    (deliveredActivity write taskId intentId (outboundSeq response) hash t)
  pure ⟨intentId, result.activityId, true, outboundSeq response, none⟩

/-- `try: client.send_signed_message(write) except TechnocoreError`, and the row of its outcome. -/
def recordOutcome [Ed25519] (client : TechnocoreClient) (write : SignedWrite) (taskId : Option PyStr)
    (intentId : PyStr) : Prog OutboundResult :=
  (client.sendSignedMessage write none).handle fun r => match r with
    | .ok response => recordDelivered write taskId intentId response
    | .error e =>
      if e.cls.isTechnocoreError then recordFailed write taskId intentId e else .raise e

/-- Record intent, attempt the write, record the linked outcome. -/
def sendAndRecord [Ed25519] (client : TechnocoreClient) (write : SignedWrite)
    (taskId : Option PyStr := none) : Prog OutboundResult := do
  let intentId ← recordIntent write taskId
  recordOutcome client write taskId intentId

end Programs

/-! ## Dangling intents -/

/-- The types of the rows that resolve an intent. -/
def outcomeTypes : List PyStr := [py "technocore.write.result", py "technocore.write.failed"]

/-- The row `r` is an outcome of the row `i`; NULL equals nothing. -/
def ActivityRow.Resolves (r i : ActivityRow) : Bool :=
  r .refActivityId != .null && r .refActivityId == i .activityId &&
    outcomeTypes.any fun t => r .activityType == .text t

/-- Intent rows with no linked result or failure. -/
def danglingIntents (db : Database) : List SqlValue :=
  let rows := (orderByChainIndex db.activities).filter fun i =>
    i .activityType == .text (py "technocore.write.intent") &&
      !db.activities.any fun r => ActivityRow.Resolves r i
  rows.map fun i => i .activityId

/-! ## Rules -/

section Rules

variable [PyRuntime] [PyBuiltins] [Ed25519] {M : Mode} {w : World} {I : World → Prop}
  {client : TechnocoreClient} {write : SignedWrite} {taskId : Option PyStr} {intentId : PyStr}

omit [Ed25519] in
/-- **The row of a refusal** is added, or its append raises. -/
theorem safe_recordFailed {e : Exc} {Q : Except Exc OutboundResult → World → Prop} (hM : M.Grows)
    (hI : ∀ w', Added w w' [] → I w')
    (hraised : ∀ (t : UtcTime) e' w', Added w w' [] →
      (M.calm → ¬ Appendable (failedActivity write taskId intentId e t.isoformat) w'.db) →
        Q (.error e') w')
    (hadded : ∀ (t : UtcTime) record w',
      Added w w' [(failedActivity write taskId intentId e t.isoformat, record)] →
        I w' ∧ Q (.ok ⟨intentId, record.activityId, false, none, some e.msg⟩) w') :
    Proc.Safe (answers M) I Q (recordFailed write taskId intentId e) w := by
  unfold recordFailed
  rw [Proc.safe_bind, safe_utcNow]
  refine ⟨hI w (.refl w), fun t => ?_⟩
  dsimp only
  rw [Proc.safe_bind]
  refine safe_append_added hM (.refl w) hI (fun e' w' h hc => ⟨hI w' h, hraised t e' w' h hc⟩) ?_
  intro record w' h
  obtain ⟨hI', hQ⟩ := hadded t record w' h
  exact ⟨hI', hI', hQ⟩

omit [Ed25519] in
/-- **The row of a response** is added, or the response cannot be hashed, or the append raises. -/
theorem safe_recordDelivered {response : PyVal} {Q : Except Exc OutboundResult → World → Prop}
    (hM : M.Grows) (hI : ∀ w', Added w w' [] → I w')
    (hunhashed : ∀ e, outboundHash response = .error e → Q (.error e) w)
    (hhashed : ∀ hash, outboundHash response = .ok hash →
      (∀ (t : UtcTime) e w', Added w w' [] → (M.calm → ¬ Appendable (deliveredActivity write taskId
        intentId (outboundSeq response) hash t.isoformat) w'.db) → Q (.error e) w') ∧
      ∀ (t : UtcTime) record w', Added w w' [(deliveredActivity write taskId intentId
        (outboundSeq response) hash t.isoformat, record)] →
          I w' ∧ Q (.ok ⟨intentId, record.activityId, true, outboundSeq response, none⟩) w') :
    Proc.Safe (answers M) I Q (recordDelivered write taskId intentId response) w := by
  have hstart := hI w (.refl w)
  unfold recordDelivered
  rw [Proc.safe_bind, Proc.safe_lift]
  refine ⟨hstart, ?_⟩
  cases hhash : outboundHash response with
  | error e => exact ⟨hstart, hunhashed e hhash⟩
  | ok hash =>
    obtain ⟨hraised, hadded⟩ := hhashed hash hhash
    dsimp only
    rw [Proc.safe_bind, safe_utcNow]
    refine ⟨hstart, fun t => ?_⟩
    dsimp only
    rw [Proc.safe_bind]
    refine safe_append_added hM (.refl w) hI (fun e w' h hc => ⟨hI w' h, hraised t e w' h hc⟩) ?_
    intro record w' h
    obtain ⟨hI', hQ⟩ := hadded t record w' h
    exact ⟨hI', hI', hQ⟩

/-- **The outcome of a send**: what is not a `TechnocoreError` escapes, everything else goes on to its
row. -/
theorem safe_recordOutcome {Q : Except Exc OutboundResult → World → Prop}
    (hI : ∀ w', TechnocoreClient.SendReach client write none w w' → I w')
    (hescaped : ∀ e urls w', TechnocoreClient.SendExit client write none w (.error e) urls →
      TechnocoreClient.SendEnd none urls w w' → e.cls.isTechnocoreError = false → Q (.error e) w')
    (hfailed : ∀ e urls w', TechnocoreClient.SendExit client write none w (.error e) urls →
      TechnocoreClient.SendEnd none urls w w' → e.cls.isTechnocoreError = true →
      Proc.Safe (answers M) I Q (recordFailed write taskId intentId e) w')
    (hanswered : ∀ response urls w', TechnocoreClient.SendExit client write none w (.ok response) urls →
      TechnocoreClient.SendEnd none urls w w' →
      Proc.Safe (answers M) I Q (recordDelivered write taskId intentId response) w') :
    Proc.Safe (answers M) I Q (recordOutcome client write taskId intentId) w := by
  unfold recordOutcome
  rw [Proc.safe_handle]
  refine TechnocoreClient.send_safe hI fun r urls w' hexit hend => ?_
  cases r with
  | ok response => exact hanswered response urls w' hexit hend
  | error e =>
    dsimp only
    rw [Proc.safe_ite]
    refine ⟨fun hcls => hfailed e urls w' hexit hend hcls, fun hcls => ?_⟩
    have hreach := hI w' ⟨hend.db, hend.gates, Or.inr ⟨_, urls, hexit, hend.trace⟩⟩
    exact ⟨hreach, hescaped e urls w' hexit hend (by simpa using hcls)⟩

/-- **The whole of it**: the intent is not added, or it is, and the outcome follows. -/
theorem safe_sendAndRecord {Q : Except Exc OutboundResult → World → Prop} (hM : M.Grows)
    (hI : ∀ w', Added w w' [] → I w')
    (hraised : ∀ (t : UtcTime) e w', Added w w' [] →
      (M.calm → ¬ Appendable (intentActivity write taskId t.isoformat) w'.db) → Q (.error e) w')
    (hintent : ∀ (t : UtcTime) record w',
      Added w w' [(intentActivity write taskId t.isoformat, record)] →
        Proc.Safe (answers M) I Q (recordOutcome client write taskId record.activityId) w') :
    Proc.Safe (answers M) I Q (sendAndRecord client write taskId) w := by
  unfold sendAndRecord recordIntent
  rw [Proc.safe_bind, Proc.safe_bind, safe_utcNow]
  refine ⟨hI w (.refl w), fun t => ?_⟩
  dsimp only
  rw [Proc.safe_bind]
  refine safe_append_added hM (.refl w) hI (fun e w' h hc => ⟨hI w' h, hI w' h, hraised t e w' h hc⟩) ?_
  intro record w' h
  have hsafe := hintent t record w' h
  exact ⟨hsafe.inv, hsafe.inv, hsafe⟩

end Rules

end FlopOffice.Technocore
