/-
# FlopOffice.Technocore.PayloadHash — whether the recorded payload hash is of the signed bytes.

What is verified is a payload rebuilt from did, room, nonce and text, and the text is swept on the way.
What is hashed into the row is the `payload` of the write, and what is copied into the rows of a proof is
its `payload_hash`: fields of their own. So the hash in the ledger binds the signed bytes if it is the
hash of `room|nonce|text` and the text that is transmitted or recorded is its own sweep; and where the
signature is valid for one payload only, it does not otherwise.
-/
import FlopOffice.Technocore.OutcomeRuns

namespace FlopOffice.Technocore

open FlopOffice.Identity FlopOffice.Lib FlopOffice.Proof FlopOffice.Python FlopOffice.Storage
  FlopOffice.Tools

/-! ## What a row binds -/

section Binding

variable [Ed25519]

/-- The hash in `row` is the SHA-256 of the bytes `room|nonce|text`, with `text` as it stands, and the
signature in `signedRow` verifies over these bytes. -/
def BindsBytes (row signedRow : ActivityRow) (text : PyStr) : Prop :=
  ∃ did sig room, ∃ n : Nat, ∃ bytes, signedRow .agentDid = .text did ∧
    signedRow .signature = .text sig ∧ signedRow .tcRoom = .text room ∧
    signedRow .tcNonce = .integer n ∧ utf8 (messageText room n text) = .ok bytes ∧
    verify did sig bytes = .ok true ∧ row .signedPayloadHash = .text (hexdigest bytes)

omit [Ed25519] in
/-- The text is its own sweep, and `hash` is the SHA-256 of `room|nonce|text`. -/
def HashOfParts (room : PyStr) (nonce : PyInt) (text hash : PyStr) : Prop :=
  singleLineSweep text = text ∧ ∃ n : Nat, ∃ bytes, nonce = .int n ∧
    utf8 (messageText room n text) = .ok bytes ∧ hash = hexdigest bytes

/-- The signature is valid for one payload at most. -/
def VerifiesOnce (did sig : PyStr) : Prop :=
  ∀ p p', verify did sig p = .ok true → verify did sig p' = .ok true → p = p'

/-- The columns of a signature. -/
structure CarriesSignature (row : ActivityRow) (did sig room : PyStr) (nonce : PyInt) : Prop where
  did : row .agentDid = .text did
  signature : row .signature = .text sig
  room : row .tcRoom = .text room
  nonce : ∀ n : Nat, nonce = .int n → row .tcNonce = .integer n

omit [Ed25519] in
theorem CarriesSignature.of_isRow {r : Appended} {row : ActivityRow} (h : r.IsRow row)
    {sig room : PyStr} {nonce : PyInt} (hsig : r.1.signature = some sig)
    (hroom : r.1.tcRoom = some room) (hnonce : r.1.tcNonce = some nonce) :
    CarriesSignature row r.1.agentDid sig room nonce := by
  obtain ⟨metaJson, at_, index, prev, hbind⟩ := h
  have hsigCol := hbind .signature (by decide)
  have hroomCol := hbind .tcRoom (by decide)
  simp only [activityRow, hsig, hroom, strScalar] at hsigCol hroomCol
  refine ⟨(bindValue_str.mp (hbind .agentDid (by decide))).2, (bindValue_str.mp hsigCol).2,
    (bindValue_str.mp hroomCol).2, fun n hn => ?_⟩
  have hnonceCol := hbind .tcNonce (by decide)
  simp only [activityRow, hnonce, hn, intScalar] at hnonceCol
  exact bindValue_int_eq hnonceCol

omit [Ed25519] in
theorem hash_of_isRow {r : Appended} {row : ActivityRow} (h : r.IsRow row) {hash : PyStr}
    (hhash : r.1.signedPayloadHash = some hash) : row .signedPayloadHash = .text hash := by
  obtain ⟨metaJson, at_, index, prev, hbind⟩ := h
  have hcol := hbind .signedPayloadHash (by decide)
  simp only [activityRow, hhash, strScalar] at hcol
  exact (bindValue_str.mp hcol).2

/-- **The rows of what was verified bind the signed bytes** if their hash is of the parts; and only then,
where the signature is valid for one payload. -/
theorem bindsBytes_iff {did sig room text hash : PyStr} {nonce : PyInt} {row signedRow : ActivityRow}
    (hv : verifyMessage did sig room nonce text = .ok true)
    (hsigned : CarriesSignature signedRow did sig room nonce)
    (hhash : row .signedPayloadHash = .text hash) :
    (HashOfParts room nonce text hash → BindsBytes row signedRow text) ∧
      (VerifiesOnce did sig → (BindsBytes row signedRow text ↔ HashOfParts room nonce text hash)) := by
  obtain ⟨payload, hpayload, hverify⟩ := verifyMessage_eq_true.mp hv
  obtain ⟨n, rfl, -, -, hbuilt⟩ := messagePayload_eq_ok.mp hpayload
  have hswept : utf8 (messageText room n (singleLineSweep text)) = .ok payload := (hbuilt _ rfl).2.2
  have hbinds : HashOfParts room (.int n) text hash → BindsBytes row signedRow text := by
    rintro ⟨hsweep, n', bytes, hn, hbytes, rfl⟩
    obtain rfl : n = n' := Int.ofNat.inj (PyInt.int.inj hn)
    -- the text as it stands is the text that was verified
    rw [hsweep, hbytes] at hswept
    cases hswept
    exact ⟨did, sig, room, n, payload, hsigned.did, hsigned.signature, hsigned.room,
      hsigned.nonce n rfl, hbytes, hverify, hhash⟩
  refine ⟨hbinds, fun honce => ⟨?_, hbinds⟩⟩
  · rintro ⟨did', sig', room', n', bytes, hdid, hsig, hroom, hnonce, hbytes, hgood, hrow⟩
    rw [hsigned.did] at hdid
    rw [hsigned.signature] at hsig
    rw [hsigned.room] at hroom
    rw [hsigned.nonce n rfl] at hnonce
    rw [hhash] at hrow
    cases hdid
    cases hsig
    cases hroom
    cases hrow
    obtain rfl : n = n' := Int.ofNat.inj (SqlValue.integer.inj hnonce)
    -- one payload: the bytes with the text as it stands are those with its sweep
    obtain rfl := honce _ _ hgood hverify
    have htexts : messageText room n (singleLineSweep text) = messageText room n text :=
      utf8_injective hswept hbytes
    have hsweep : singleLineSweep text = text := (List.cons.inj (List.append_cancel_left (List.cons.inj
      (List.append_cancel_left htexts)).2)).2
    exact ⟨hsweep, n, bytes, rfl, hbytes, rfl⟩

end Binding

/-! ## Delivered writes -/

section Delivered

variable [PyRuntime] [PyBuiltins] [Ed25519]

/-- What a call that reports a delivery has done: the intent is committed, the write verified, and its
text went out in the path. -/
structure DeliveredBy (client : TechnocoreClient) (write : SignedWrite) (taskId : Option PyStr)
    (result : OutboundResult) (w' : World) (t : PyStr) (record : LedgerRecord) : Prop where
  id_eq : record.activityId = result.intentActivityId
  committed : Appended.CommittedIn (intentActivity write taskId t, record) w'.db
  verified : write.verifies = .ok true
  transmitted : ∃ path, write.path = .ok path ∧ .sent (client.baseUrl ++ path) ∈ w'.trace

/-- A response came back over a path, and only what verifies is sent. -/
theorem sent_of_answered {client : TechnocoreClient} {write : SignedWrite}
    {w : World} {response : PyVal} {urls : List PyStr}
    (h : TechnocoreClient.SendExit client write none w (.ok response) urls) :
    write.verifies = .ok true ∧ ∃ path, write.path = .ok path ∧ urls = [client.baseUrl ++ path] := by
  generalize hr : (Except.ok response : Except Exc PyVal) = r at h
  cases h with
  | unverifiable | unverified | refused | limited | unencodable => cases hr
  | sent hv hguard hacquire hpath => exact ⟨hv, _, hpath, rfl⟩

/-- **A call that reports a delivery** has sent what it had recorded. -/
theorem delivered_of_exec {M : Mode} (hM : M.Grows) {client : TechnocoreClient} {write : SignedWrite}
    {taskId : Option PyStr} {w w' : World} {result : OutboundResult}
    (h : Proc.Exec (answers M) (sendAndRecord client write taskId) w (.ok result) w')
    (hdelivered : result.delivered = true) :
    ∃ t record, DeliveredBy client write taskId result w' t record := by
  let Q : Except Exc OutboundResult → World → Prop := fun r w' => ∀ result, r = .ok result →
    result.delivered = true → ∃ t record, DeliveredBy client write taskId result w' t record
  have hraise : ∀ e w', Q (.error e) w' := fun e w' result hr => nomatch hr
  have hsafe : Proc.Safe (answers M) (fun _ => True) Q (sendAndRecord client write taskId) w := by
    refine safe_sendAndRecord hM (fun _ _ => trivial) (fun _ e w' _ _ => hraise e w')
      fun t record w₁ h₁ => ?_
    refine safe_recordOutcome (fun _ _ => trivial) (fun e _ w' _ _ _ => hraise e w')
      (fun e urls w₂ _ _ _ => ?_) fun response urls w₂ hexit hend => ?_
    · -- a refused call reports that nothing was delivered
      refine safe_recordFailed hM (fun _ _ => trivial) (fun _ e' w' _ _ => hraise e' w')
        fun t' record' w₃ _ => ⟨trivial, fun result hr hno => ?_⟩
      cases hr
      cases hno
    · obtain ⟨hv, path, hpath, rfl⟩ := sent_of_answered hexit
      refine safe_recordDelivered hM (fun _ _ => trivial) (fun e _ => hraise e w₂) fun hash _ =>
        ⟨fun _ e w' _ _ => hraise e w', fun t' record' w₃ h₃ => ⟨trivial, fun result hr _ => ?_⟩⟩
      cases hr
      refine ⟨t.isoformat, record, rfl, ?_, hv, path, hpath, ?_⟩
      · have hcommitted := h₁.committed _ (List.mem_singleton_self _)
        rw [← hend.db] at hcommitted
        exact hcommitted.mono h₃.grown
      · rw [h₃.trace, hend.trace]
        exact List.mem_append_left _ (List.mem_append_right _ (List.mem_singleton_self _))
  exact (hsafe.exec h).2 result rfl hdelivered

/-- **A recorded proof** has verified, and its four rows are there. -/
theorem recorded_of_exec {M : Mode} (hM : M.Grows) {proof : AnnouncementProof} {taskId : PyStr}
    {w w' : World} {records : AnnouncementProofRecords}
    (h : Proc.Exec (answers M) (recordLocalAnnouncementProof proof taskId) w (.ok records) w') :
    verifyAnnouncementProof proof = .ok true ∧ ∃ s : ProofStamps, s.records = records ∧
      ∀ r ∈ fourRows proof taskId s, r.CommittedIn w'.db := by
  let Q : Except Exc AnnouncementProofRecords → World → Prop := fun r w' => ∀ records,
    r = .ok records → verifyAnnouncementProof proof = .ok true ∧ ∃ s : ProofStamps,
      s.records = records ∧ ∀ r ∈ fourRows proof taskId s, r.CommittedIn w'.db
  have hsafe : Proc.Safe (answers M) (fun _ => True) Q (recordLocalAnnouncementProof proof taskId)
      w := by
    refine safe_recordLocalAnnouncementProof hM (fun _ _ _ _ => trivial)
      (fun _ _ _ _ _ _ _ records hr => by cases hr) fun w' s hadded _ hverify records hr => ?_
    cases hr
    exact ⟨hverify, s, rfl, hadded.committed⟩
  exact (hsafe.exec h).2 records rfl

end Delivered

/-! ## The result -/

/-- **When the ledger's payload hash binds the signed bytes.** The intent of a delivered write, whose text
went out in the path of the request, and the four rows of a recorded proof: each binds the bytes
`room|nonce|text`, with the text that was transmitted or recorded as it stands, if its hash is of these
bytes and the text is its own sweep; and, for a signature that is valid for one payload, only if. -/
theorem payload_hash_binds_iff [PyRuntime] [PyBuiltins] [Ed25519] {M : Mode} (hM : M.Grows) :
    (∀ client write taskId w w' result,
      Proc.Exec (answers M) (sendAndRecord client write taskId) w (.ok result) w' →
      result.delivered = true →
      ∃ t record, DeliveredBy client write taskId result w' t record ∧
        ∀ row, Appended.IsRow (intentActivity write taskId t, record) row →
          (HashOfParts write.room write.nonce write.sweptText (hexdigest write.payload) →
            BindsBytes row row write.sweptText) ∧
          (VerifiesOnce write.did write.signature → (BindsBytes row row write.sweptText ↔
            HashOfParts write.room write.nonce write.sweptText (hexdigest write.payload)))) ∧
    ∀ proof taskId w w' records,
      Proc.Exec (answers M) (recordLocalAnnouncementProof proof taskId) w (.ok records) w' →
      ∃ s : ProofStamps, s.records = records ∧ ∀ r ∈ fourRows proof taskId s,
        r.CommittedIn w'.db ∧ ∀ row signedRow, r.IsRow row →
          Appended.IsRow (signedActivity proof taskId s.t₂ s.records.prepareIntent.activityId,
            s.records.signedLocal) signedRow →
          (HashOfParts proof.room proof.nonce proof.canonicalText proof.payloadHash →
            BindsBytes row signedRow proof.canonicalText) ∧
          (VerifiesOnce proof.did proof.signature → (BindsBytes row signedRow proof.canonicalText ↔
            HashOfParts proof.room proof.nonce proof.canonicalText proof.payloadHash)) := by
  constructor
  · intro client write taskId w w' result hexec hdelivered
    obtain ⟨t, record, hby⟩ := delivered_of_exec hM hexec hdelivered
    refine ⟨t, record, hby, fun row hrow => ?_⟩
    exact bindsBytes_iff hby.verified (.of_isRow hrow rfl rfl rfl) (hash_of_isRow hrow rfl)
  · intro proof taskId w w' records hexec
    obtain ⟨hverify, s, hs, hcommitted⟩ := recorded_of_exec hM hexec
    refine ⟨s, hs, fun r hr => ⟨hcommitted r hr, fun row signedRow hrow hsigned => ?_⟩⟩
    have hhash : r.1.signedPayloadHash = some proof.payloadHash := by
      simp only [fourRows, List.mem_cons, List.not_mem_nil, or_false] at hr
      rcases hr with rfl | rfl | rfl | rfl <;> rfl
    exact bindsBytes_iff hverify (.of_isRow hsigned rfl rfl rfl) (hash_of_isRow hrow hhash)

/-! ### A delivered write with another payload -/

section Delivery

/-- A key that accepts one payload, that of `hello` in the lobby. -/
@[reducible] def acceptHello : Ed25519 := acceptOnly (lobbyMessage "hello").payload

attribute [local instance] asciiRuntime asciiBuiltins acceptHello

theorem verifiesOnce_acceptHello (did sig : PyStr) : VerifiesOnce did sig := by
  have hone : ∀ p, verify did sig p = .ok true → p = (lobbyMessage "hello").payload := by
    intro p hp
    obtain ⟨key, raw, -, -, haccepted⟩ := verify_eq_true.mp hp
    exact eq_of_beq haccepted
  exact fun p p' hp hp' => (hone p hp).trans (hone p' hp').symm

/-- The two rows of the sample write, and their hashes. -/
def intentHash : PyStr := py "2fc64cca2a61e51ae6890cf398f25a97" ++ py "864dc0bea965ec2f4f617781802ebe0e"

def intentText : PyStr := cp '{' :: (quote (py "swept_len") ++ cp ':' :: py "5" ++ [cp '}'])

def intentRow : ActivityRow := stored (appendedRow lobbyIntent.activity (some intentText) (uuid4 0)
  lobbyIntent.now.isoformat 0 GENESIS_PREV_HASH intentHash)

def deliveredHash : PyStr := py "bf399c4b5172ca75601bfdba8e613f6e" ++ py "0881420c1de6b5b0422f91bb6ebc9f78"

def lobbyDelivered : AppendCall :=
  ⟨deliveredActivity lobbyHello none (uuid4 0) none none lobbyIntent.now.isoformat, 1, lobbyIntent.now⟩

def deliveredRow : ActivityRow := stored (appendedRow lobbyDelivered.activity none (uuid4 1)
  lobbyDelivered.now.isoformat 1 intentHash deliveredHash)

theorem intent_appended : appendAlone lobbyIntent ⟨[], []⟩ =
    (.ok ⟨uuid4 0, 0, .str GENESIS_PREV_HASH, intentHash, lobbyIntent.now.isoformat⟩,
      ⟨[intentRow], []⟩) := by
  have hjson : metaJson lobbyIntent.activity = .ok (some intentText) := by decide
  refine appendAlone_of_run (prepare_of_appendable appendable_lobbyIntent hjson) ?_
  refine appendBlock_run_eq_ok.mpr ⟨0, .str GENESIS_PREV_HASH, intentHash, intentRow, rfl, nofun, ?_,
    fun c => by cases c <;> decide, by decide, rfl, rfl⟩
  rw [computeEntryHash_eq_packed]
  decide +kernel

theorem delivered_appended : appendAlone lobbyDelivered ⟨[intentRow], []⟩ =
    (.ok ⟨uuid4 1, 1, .str intentHash, deliveredHash, lobbyDelivered.now.isoformat⟩,
      ⟨[intentRow, deliveredRow], []⟩) := by
  have hrow : ∃ r ∈ [intentRow], r .activityId = .text (uuid4 0) :=
    ⟨intentRow, List.mem_singleton_self _, by decide⟩
  have happendable : Appendable lobbyDelivered.activity ⟨[intentRow], []⟩ :=
    appendable_outcome columnsAccepted_lobbyIntent (by decide) List.mem_cons_self rfl nofun nofun
      (Or.inl rfl) hrow
  refine appendAlone_of_run (prepare_of_appendable happendable rfl) ?_
  refine appendBlock_run_eq_ok.mpr ⟨1, .str intentHash, deliveredHash, deliveredRow,
    by decide, ?_, ?_, fun c => by cases c <;> decide, by decide, rfl, rfl⟩
  · rintro _ ⟨⟩
    exact ⟨(textAccepted_uuid4 0).1, hrow⟩
  · rw [computeEntryHash_eq_packed]
    decide +kernel

/-- The bucket has a token, and the server answers `null`. -/
def grantedWorld : World :=
  { limitedWorld with
    writes := .oneToken
    server := .ok (.ofJson (.leaf .none) rfl) }

/-- The sample write is delivered. -/
theorem lobbyHello_delivered : ∃ w', w'.db = ⟨[intentRow, deliveredRow], []⟩ ∧
    Proc.Exec (answers calmMode) (sendAndRecord loopbackClient lobbyHello none) grantedWorld
      (.ok ⟨uuid4 0, uuid4 1, true, none, none⟩) w' := by
  have hguard : some (loopbackClient.localGuard (grantedWorld.environ WRITE_ENABLE_ENV)) =
      some (.ok ()) := by
    decide
  have hgranted : (grantedWorld.writes.acquire grantedWorld.clock).1 = .granted := by
    decide +kernel
  obtain ⟨path, hpath⟩ : ∃ path, lobbyHello.path = .ok path := ⟨_, rfl⟩
  have hnow : ∀ w, Proc.Exec (answers calmMode) utcNow w (.ok lobbyIntent.now.isoformat) w :=
    fun w => Proc.exec_call ⟨rfl, _, rfl⟩
  -- the intent
  have happend : Proc.Exec (answers calmMode) (ledgerAppend lobbyIntent.activity) grantedWorld _ _ :=
    ledgerAppend_exec rfl intent_appended
  have hintent : Proc.Exec (answers calmMode) (recordIntent lobbyHello none) grantedWorld
      (.ok (uuid4 0)) _ := (hnow _).bind (happend.bind .refl)
  -- the send
  have hexit : ∀ db trace, TechnocoreClient.SendExit loopbackClient lobbyHello none
      { grantedWorld with db := db, trace := trace } (.ok (.leaf .none))
      [loopbackClient.baseUrl ++ path] :=
    fun db trace => .sent (by decide) hguard (Prod.ext hgranted rfl) hpath
  obtain ⟨w₂, hsend, hdb, -⟩ := TechnocoreClient.send_exec_db (M := calmMode)
    (hexit ⟨[intentRow], []⟩ _)
  -- its result
  have hrun := delivered_appended
  rw [← show w₂.db = ⟨[intentRow], []⟩ from hdb] at hrun
  have hresult : Proc.Exec (answers calmMode) (recordDelivered lobbyHello none (uuid4 0) (.leaf .none))
      w₂ (.ok ⟨uuid4 0, uuid4 1, true, none, none⟩) _ :=
    .bind (a := none) Proc.exec_lift ((hnow w₂).bind ((ledgerAppend_exec rfl hrun).bind .refl))
  exact ⟨_, rfl, hintent.bind (hsend.handle hresult)⟩

/-- The payload field of the write has another hash than what was signed. -/
theorem not_hashOfParts_lobbyHello : ¬ HashOfParts lobbyHello.room lobbyHello.nonce
    lobbyHello.sweptText (hexdigest lobbyHello.payload) := by
  have hother : (utf8 (messageText lobbyHello.room 5 lobbyHello.sweptText)).map hexdigest ≠
      .ok (hexdigest lobbyHello.payload) := by
    rw [funext hexdigest_eq_packed]
    decide +kernel
  rintro ⟨-, n, bytes, hn, hbytes, hhash⟩
  obtain rfl : n = 5 := Int.ofNat.inj (PyInt.int.inj hn.symm)
  rw [hbytes] at hother
  exact hother (congrArg Except.ok hhash.symm)

/-- **A delivered write whose recorded hash is of other bytes.** -/
theorem delivered_hash_of_other_bytes :
    ¬ ∀ (M : Mode) (client : TechnocoreClient) (write : SignedWrite) (taskId : Option PyStr)
      (w w' : World) (result : OutboundResult), M.Grows →
      Proc.Exec (answers M) (sendAndRecord client write taskId) w (.ok result) w' →
      result.delivered = true → ∀ row ∈ w'.db.activities,
        row .activityId = .text result.intentActivityId → BindsBytes row row write.sweptText := by
  intro hall
  obtain ⟨w', hdb, hexec⟩ := lobbyHello_delivered
  have hmem : intentRow ∈ w'.db.activities := by
    rw [hdb]
    exact List.mem_cons_self
  have hbinds := hall _ _ _ _ _ _ _ calmMode_grows hexec rfl intentRow hmem (by decide)
  have hcarries : CarriesSignature intentRow lobbyHello.did lobbyHello.signature lobbyHello.room
      lobbyHello.nonce := by
    refine ⟨by decide, by decide, by decide, fun n hn => ?_⟩
    obtain rfl : n = 5 := Int.ofNat.inj (PyInt.int.inj hn.symm)
    decide
  exact not_hashOfParts_lobbyHello
    (((bindsBytes_iff (by decide) hcarries (by decide)).2 (verifiesOnce_acceptHello _ _)).mp hbinds)

theorem payload_hash_binds_iff_lobby : ∃ (t : PyStr) (record : LedgerRecord) (w' : World),
    Appended.CommittedIn (intentActivity lobbyHello none t, record) w'.db ∧
      ∀ row, Appended.IsRow (intentActivity lobbyHello none t, record) row →
        ¬ BindsBytes row row lobbyHello.sweptText := by
  obtain ⟨w', hdb, hexec⟩ := lobbyHello_delivered
  obtain ⟨t, record, hby, hiff⟩ :=
    (payload_hash_binds_iff calmMode_grows).1 _ _ _ _ _ _ hexec rfl
  refine ⟨t, record, w', hby.committed, fun row hrow hbinds => ?_⟩
  exact not_hashOfParts_lobbyHello
    (((hiff row hrow).2 (verifiesOnce_acceptHello _ _)).mp hbinds)

end Delivery

end FlopOffice.Technocore
