/-
# FlopOffice.Technocore.Announcement — the first public announcement.

A nonce is reserved, the message signed and verified locally, and four linked rows recorded; that is a
preparation, and nothing is sent. `publish_first_announcement_once` prepares, opens a one-time gate,
sends once, and records what came of it.

An `AnnouncementProof` is a record anyone can fill in: `verify_announcement_proof` looks at did, room,
nonce, signature and canonical text, and takes every hash as it is.
-/
import FlopOffice.Technocore.Client

namespace FlopOffice.Technocore

open FlopOffice.Identity FlopOffice.Lib FlopOffice.Proof FlopOffice.Python

/-! ## Constants -/

def FIRST_ANNOUNCEMENT_ROOM : PyStr := py "lobby"

def FIRST_ANNOUNCEMENT_TEXT : PyStr :=
  py "FlopOffice is a DID-authenticated multi-agent workspace for signed " ++
  py "coordination, append-only proof logging, and capability-scoped agent " ++
  py "actions. Current milestone: Technocore signing conformance is pinned, " ++
  py "the root DID is configured, and signer wiring is fail-closed. Public " ++
  py "testnet integrations will be added only when official FLOP interfaces " ++
  py "are available."

def CANONICALIZATION_PROFILE : PyStr := py "technocore-chat-v0.10.0-single-line-sweep"

def FIRST_ANNOUNCEMENT_SHA256 : PyStr :=
  py "bb1cdabce2383285dc883d7f3792ec9503e6be56645bd283aeb940b82b79b7f0"

def NOT_SENT : PyStr := py "NOT_SENT"

def PUBLISHED : PyStr := py "PUBLISHED"

def AWAITING_APPROVAL : PyStr := py "awaiting_explicit_user_approval"

/-! ## Records -/

structure AnnouncementProof where
  did : PyStr
  room : PyStr
  nonce : PyInt
  originalText : PyStr
  canonicalText : PyStr
  originalTextHash : PyStr
  canonicalTextHash : PyStr
  payloadHash : PyStr
  signature : PyStr
  signingAlgorithm : PyStr
  canonicalizationProfile : PyStr
  technocoreStatus : PyStr
  verified : Bool

structure AnnouncementProofRecords where
  prepareIntent : LedgerRecord
  signedLocal : LedgerRecord
  verifiedLocal : LedgerRecord
  publishBlocked : LedgerRecord

structure AnnouncementPreparation where
  proof : AnnouncementProof
  records : AnnouncementProofRecords

structure AnnouncementPublishResult where
  preparation : AnnouncementPreparation
  publishRecord : LedgerRecord
  responseHash : PyStr
  serverSeq : Option PyInt

/-- `AnnouncementPreparationError`. -/
def refuseAnnouncement {α : Type} (msg : String) : Prog α :=
  throwExc .announcementPreparationError msg

/-- `_sha256_text`. -/
def sha256Text (text : PyStr) : Except Exc PyStr := (utf8 text).map hexdigest

/-! ## Preparation -/

section Preparation

variable [PyRuntime]

/-- Reserve a monotonic room nonce, or atomically claim an explicit one. -/
def reserveAnnouncementNonce (did : PyStr) (room : PyStr := FIRST_ANNOUNCEMENT_ROOM)
    (nonce : Option PyInt := none) : Prog Int := do
  let scope := scopeForRoom room
  let current ← noncesCurrent did scope
  match nonce with
  | some nonce => do
    let chosen ← Proc.lift (validateNonce nonce)
    if chosen < 1 then refuseAnnouncement "announcement nonce must be >= 1"
    else if chosen ≤ current then
      refuseAnnouncement "announcement nonce must be greater than the stored local nonce"
    else do
      let reserved ← noncesReserve did scope (chosen - 1)
      if reserved ≠ chosen then
        refuseAnnouncement "announcement nonce reservation raced; refusing to sign"
      else pure reserved
  | none => noncesReserve did scope 0

/-- Verify the retained local authorship proof. -/
def verifyAnnouncementProof [Ed25519] (proof : AnnouncementProof) (did : Option PyStr := none) :
    Except Exc Bool :=
  let did := match did with
    | some d => if d ≠ [] then d else proof.did
    | none => proof.did
  verifyMessage did proof.signature proof.room proof.nonce proof.canonicalText

/-- `proof.verified and verify_announcement_proof(proof)`: a proof that says it is not verified is not
looked at. -/
def checkedProof [Ed25519] (proof : AnnouncementProof) : Except Exc Bool :=
  if proof.verified then verifyAnnouncementProof proof else .ok false

omit [PyRuntime] in
theorem checkedProof_eq_true [Ed25519] {proof : AnnouncementProof} :
    checkedProof proof = .ok true ↔
      proof.verified = true ∧ verifyAnnouncementProof proof = .ok true := by
  unfold checkedProof
  split
  · rename_i hverified
    simp [hverified]
  · rename_i hverified
    simp [hverified]

/-- Sign and locally verify the message. -/
def buildLocalAnnouncementProof [Ed25519] (capability : CapabilitySigner) (nonce : PyInt)
    (room : PyStr := FIRST_ANNOUNCEMENT_ROOM) (text : PyStr := FIRST_ANNOUNCEMENT_TEXT) :
    Prog AnnouncementProof := do
  let chosen ← Proc.lift (validateNonce nonce)
  if chosen < 1 then refuseAnnouncement "announcement nonce must be >= 1"
  else do
    let canonical := singleLineSweep text
    let signed ← signMessage capability room (.int chosen) text
    if signed.sweptText ≠ canonical then refuseAnnouncement "canonicalization mismatch"
    else do
      let payload ← Proc.lift (messagePayload room (.int chosen) canonical DEFAULT_SWEEP true)
      let verified ← Proc.lift
        (verifyMessage signed.did signed.signature room (.int chosen) canonical)
      let originalTextHash ← Proc.lift (sha256Text text)
      let canonicalTextHash ← Proc.lift (sha256Text canonical)
      pure {
        did := signed.did
        room := signed.room
        nonce := .int signed.nonce
        originalText := text
        canonicalText := canonical
        originalTextHash := originalTextHash
        canonicalTextHash := canonicalTextHash
        payloadHash := hexdigest payload
        signature := signed.signature
        signingAlgorithm := py "Ed25519"
        canonicalizationProfile := CANONICALIZATION_PROFILE
        technocoreStatus := NOT_SENT
        verified := verified }

/-- The `meta` entries all four rows share. -/
def commonMeta (proof : AnnouncementProof) : List (PyStr × PyVal) :=
  let text (s : PyStr) : PyVal := .leaf (.str s)
  [(py "canonicalization_profile", text proof.canonicalizationProfile),
   (py "canonical_text_hash", text proof.canonicalTextHash),
   (py "original_text_hash", text proof.originalTextHash),
   (py "payload_hash", text proof.payloadHash),
   (py "publish_status", text proof.technocoreStatus),
   (py "reason", text AWAITING_APPROVAL),
   (py "signing_algorithm", text proof.signingAlgorithm)]

/-- What the activities of one proof have in common. -/
def proofActivity (proof : AnnouncementProof) (activityType : String) (occurredAt : PyStr)
    (taskId ref : Option PyStr) (metadata : List (PyStr × PyVal)) : Activity where
  agentDid := proof.did
  activityType := py activityType
  occurredAt := occurredAt
  taskId := taskId
  refActivityId := ref
  tcRoom := some proof.room
  tcNonce := some proof.nonce
  signedPayloadHash := some proof.payloadHash
  metadata := some (.record metadata)

/-- `"key": "text"`. -/
def textItem (key : String) (value : PyStr) : PyStr × PyVal := (py key, .leaf (.str value))

/-- The four activities of a proof. -/
def prepareActivity (proof : AnnouncementProof) (taskId : PyStr) (occurredAt : PyStr) : Activity :=
  proofActivity proof "technocore_message_prepare_intent" occurredAt (some taskId) none
    (commonMeta proof ++ [textItem "stage" (py "prepared")])

def signedActivity (proof : AnnouncementProof) (taskId : PyStr) (occurredAt ref : PyStr) : Activity :=
  { proofActivity proof "technocore_message_signed_local" occurredAt (some taskId) (some ref)
      (commonMeta proof ++ [textItem "canonical_text" proof.canonicalText,
        textItem "stage" (py "signed")]) with
    signature := some proof.signature }

def verifiedActivity (proof : AnnouncementProof) (taskId : PyStr) (occurredAt ref : PyStr) : Activity :=
  { proofActivity proof "technocore_message_verified_local" occurredAt (some taskId) (some ref)
      (commonMeta proof ++ [textItem "signature_verification" (py "PASS"),
        textItem "stage" (py "verified")]) with
    signature := some proof.signature }

def blockedActivity (proof : AnnouncementProof) (taskId : PyStr) (occurredAt ref : PyStr) : Activity :=
  { proofActivity proof "technocore_message_publish_blocked" occurredAt (some taskId) (some ref)
      (commonMeta proof ++ [textItem "stage" (py "publish_blocked"),
        textItem "technocore_publish" (py "BLOCKED")]) with
    resultHash := some proof.canonicalTextHash }

/-- The task id of `record_local_announcement_proof`, unless it is given another. -/
def announcementTaskId : PyStr := py "m1.6-first-technocore-announcement"

/-- Append the four local-proof events. -/
def recordLocalAnnouncementProof [Ed25519] (proof : AnnouncementProof)
    (taskId : PyStr := announcementTaskId) : Prog AnnouncementProofRecords := do
  let ok ← Proc.lift (checkedProof proof)
  if !ok then
    refuseAnnouncement "local signature verification must pass before proof is recorded"
  else do
    let t₁ ← utcNow
    let prepare ← ledgerAppend (prepareActivity proof taskId t₁)
    let t₂ ← utcNow
    let signed ← ledgerAppend (signedActivity proof taskId t₂ prepare.activityId)
    let t₃ ← utcNow
    let verified ← ledgerAppend (verifiedActivity proof taskId t₃ signed.activityId)
    let t₄ ← utcNow
    let blocked ← ledgerAppend (blockedActivity proof taskId t₄ verified.activityId)
    pure ⟨prepare, signed, verified, blocked⟩

/-- Reserve, sign, verify, and record the local first-message proof. -/
def prepareFirstAnnouncement [Ed25519] (capability : CapabilitySigner) (nonce : Option PyInt := none)
    (room : PyStr := FIRST_ANNOUNCEMENT_ROOM) (text : PyStr := FIRST_ANNOUNCEMENT_TEXT) :
    Prog AnnouncementPreparation := do
  let chosen ← reserveAnnouncementNonce capability.did.did room nonce
  let proof ← buildLocalAnnouncementProof capability (.int chosen) room text
  let records ← recordLocalAnnouncementProof proof
  pure ⟨proof, records⟩

end Preparation

/-! ## Publication -/

section Publication

variable [PyRuntime] [PyBuiltins]

/-- `_response_hash`. -/
def responseHash (response : PyVal) : Except Exc PyStr := do
  let text ← dumps response
  let encoded ← utf8 text
  pure (hexdigest encoded)

/-- The activity of `_record_publish_result`. -/
def resultActivity (preparation : AnnouncementPreparation) (delivered : Bool) (status : PyStr)
    (responseHash : Option PyStr) (serverSeq : Option PyInt) (error : Option PyStr)
    (occurredAt : PyStr) : Activity :=
  let proof := preparation.proof
  { proofActivity proof "technocore_message_publish_result" occurredAt none
      (some preparation.records.publishBlocked.activityId)
      ([textItem "canonical_text_hash" proof.canonicalTextHash,
        textItem "message_sha256" FIRST_ANNOUNCEMENT_SHA256,
        textItem "publish_status" status,
        (py "sent_once", .leaf (.bool delivered)),
        textItem "stage" (py "publish_result")] ++
        responseHash.toList.map (textItem "server_response_hash") ++
        error.toList.map (textItem "error")) with
    tcSeq := serverSeq
    signature := some proof.signature
    resultHash := responseHash }

/-- `_record_publish_result`. -/
def recordPublishResult (preparation : AnnouncementPreparation) (delivered : Bool) (status : PyStr)
    (responseHash : Option PyStr := none) (serverSeq : Option PyInt := none)
    (error : Option PyStr := none) : Prog LedgerRecord := do
  let t ← utcNow
  ledgerAppend (resultActivity preparation delivered status responseHash serverSeq error t)

/-- `type(exc).__name__` of a `TechnocoreError`. -/
def technocoreErrorName (e : Exc) : PyStr :=
  if e.cls = .publicWriteRefused then py "PublicWriteRefused" else py "TechnocoreError"

/-- `value` if `isinstance(value, int)`. -/
def asInt : PyVal → Option PyInt
  | .leaf (.int i) => some (.int i)
  | .leaf (.bool b) => some (.bool b)
  | _ => none

/-- The write a proof is sent as. -/
def proofWrite (proof : AnnouncementProof) (payload : Bytes) : SignedWrite where
  did := proof.did
  room := proof.room
  nonce := proof.nonce
  text := proof.originalText
  sweptText := proof.canonicalText
  signature := proof.signature
  payload := payload

/-- What becomes of a response. -/
def recordResponse (preparation : AnnouncementPreparation) (response : PyVal) :
    Prog AnnouncementPublishResult := do
  let hash ← Proc.lift (responseHash response)
  let ok := response.get (py "ok")
  match ok, asInt (response.get (py "seq")) with
  | .leaf (.bool true), some seq => do
    let record ← recordPublishResult preparation true PUBLISHED (some hash) (some seq)
    pure ⟨preparation, record, hash, some seq⟩
  | _, _ => do
    let _ ← recordPublishResult preparation false (py "UNEXPECTED_RESPONSE") (some hash)
    refuseAnnouncement "unexpected Technocore publish response"

/-- Send once, through the gate, and record the result. -/
def sendPrepared [Ed25519] (client : TechnocoreClient) (preparation : AnnouncementPreparation)
    (write : SignedWrite) (gate : Nat) : Prog AnnouncementPublishResult := do
  let response ← Proc.catch_ (client.sendSignedMessage write (some gate)) fun e =>
    if e.cls.isTechnocoreError then do
      let _ ← recordPublishResult preparation false (py "AMBIGUOUS_OR_FAILED") none none
        (some (technocoreErrorName e))
      refuseAnnouncement "Technocore publish did not complete cleanly; no retry was attempted"
    else .raise e
  recordResponse preparation response

/-- Prepare proof, open a one-use gate, send once, and record the result. -/
def publishFirstAnnouncementOnce [Ed25519] (capability : CapabilitySigner) (client : TechnocoreClient)
    (room messageSha256 : PyStr) (confirm : Bool := false) : Prog AnnouncementPublishResult :=
  if !confirm then refuseAnnouncement "public publish confirmation is required"
  else if room ≠ FIRST_ANNOUNCEMENT_ROOM then
    refuseAnnouncement "room must be the prepared announcement room"
  else if messageSha256 ≠ FIRST_ANNOUNCEMENT_SHA256 then
    refuseAnnouncement "message SHA-256 does not match announcement"
  else do
    let preparation ← prepareFirstAnnouncement capability none room FIRST_ANNOUNCEMENT_TEXT
    let proof := preparation.proof
    if proof.canonicalTextHash ≠ messageSha256 then refuseAnnouncement "canonicalization hash mismatch"
    else do
      let ok ← Proc.lift (checkedProof proof)
      if !ok then refuseAnnouncement "local signature verification failed"
      else do
        let payload ← Proc.lift
          (messagePayload proof.room proof.nonce proof.canonicalText DEFAULT_SWEEP true)
        let write := proofWrite proof payload
        let verifies ← Proc.lift write.verifies
        if !verifies then refuseAnnouncement "prepared signed write failed verification"
        else do
          let object ← Proc.lift
            (OneTimePublicWriteGate.create client.host proof.room messageSha256 proof.nonce true)
          let gate ← newGate object
          sendPrepared client preparation write gate

end Publication

end FlopOffice.Technocore
