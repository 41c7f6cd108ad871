/-
# FlopOffice.Technocore.OutcomeRuns — every attempted write gets its outcome row, and when it does not.

An intent is followed by exactly one outcome if and only if the write, the client and what the server
does are `OutcomeRecordable`: each exit of the send is read once, with what the second append can have
against its row.
-/
import FlopOffice.Technocore.GateRuns
import FlopOffice.Technocore.Outcome

namespace FlopOffice.Technocore

open FlopOffice.Identity FlopOffice.Lib FlopOffice.Proof FlopOffice.Python FlopOffice.Storage
  FlopOffice.Tools

/-! ## The exits of the send -/

section Exits

variable [PyRuntime] [PyBuiltins] [Ed25519] {client : TechnocoreClient} {write : SignedWrite}
  {w : World} {urls : List PyStr}

omit [PyBuiltins] [Ed25519] in
theorem hostNameable_of_passed {flag : Option PyStr} (h : client.localGuard flag = .ok ()) :
    HostNameable client := by
  unfold TechnocoreClient.localGuard at h
  split at h
  · cases h
  · split at h
    · cases h
    · rename_i hloop
      exact Or.inr (Or.inl (by simpa using hloop))

omit [PyRuntime] [PyBuiltins] [Ed25519] in
/-- A text with a lone surrogate has no path. -/
theorem surrogate_of_path {path : PyStr} (h : write.path = .ok path) :
    ∀ c ∈ write.sweptText, c.isSurrogate = false := by
  simp only [SignedWrite.path, bind_eq_ok] at h
  obtain ⟨_, -, _, -, _, -, _, -, text, htext, -⟩ := h
  obtain ⟨b, hb, -⟩ := map_eq_ok.mp htext
  exact utf8_isOk_iff.mp ⟨b, hb⟩

omit [PyRuntime] [PyBuiltins] [Ed25519] in
/-- The path of a write whose other parts were accepted hangs on its text. -/
theorem path_isOk_iff (hroom : ∃ b, utf8 write.room = .ok b) (hdid : ∃ b, utf8 write.did = .ok b)
    (hsig : ∃ b, utf8 write.signature = .ok b) (hnonce : storable write.nonce.toInt = true) :
    (∃ path, write.path = .ok path) ↔ ∀ c ∈ write.sweptText, c.isSurrogate = false := by
  have hsegment : ∀ {s : PyStr}, (∃ b, utf8 s = .ok b) → ∃ x, encodePathSegment s = .ok x := by
    rintro s ⟨b, hb⟩
    exact ⟨_, map_eq_ok.mpr ⟨b, hb, rfl⟩⟩
  have hdigits : ∃ t, write.nonce.str = .ok t := by
    cases hn : write.nonce with
    | bool b => exact ⟨_, rfl⟩
    | int i =>
      rw [hn] at hnonce
      exact strInt_of_storable hnonce
  obtain ⟨room, hroom⟩ := hsegment hroom
  obtain ⟨did, hdid⟩ := hsegment hdid
  obtain ⟨sig, hsig⟩ := hsegment hsig
  obtain ⟨nonce, hnonce⟩ := hdigits
  refine ⟨fun ⟨_, h⟩ => surrogate_of_path h, fun htext => ?_⟩
  obtain ⟨text, htext⟩ := hsegment (utf8_isOk_iff.mpr htext)
  simp only [SignedWrite.path, bind_eq_ok]
  exact ⟨_, room, hroom, did, hdid, sig, hsig, nonce, hnonce, text, htext, rfl⟩

/-- What is raised past the handler leaves no way to record the outcome. -/
theorem not_recordable_of_escaped {e : Exc} {taskId : Option PyStr} {t : PyStr}
    (hcolumns : ColumnsAccepted (intentActivity write taskId t))
    (h : TechnocoreClient.SendExit client write none w (.error e) urls)
    (hcls : e.cls.isTechnocoreError = false) : ¬ OutcomeRecordable client write w := by
  intro hrec
  have htext : ∀ s ∈ stringColumns (intentActivity write taskId t), ∃ b, utf8 s = .ok b :=
    fun s hs => (hcolumns.texts s hs).1
  generalize hr : (Except.error e : Except Exc PyVal) = r at h
  cases h with
  | unverifiable hv =>
    obtain ⟨b, hb⟩ := verifyMessage_isOk_iff.mpr hrec.answered
    rw [SignedWrite.verifies, hb] at hv
    cases hv
  | unverified hv =>
    cases hr
    cases hcls
  | refused hv hguard =>
    cases hr
    have hrefused : client.localGuard (w.environ WRITE_ENABLE_ENV) = .error e := Option.some.inj hguard
    unfold TechnocoreClient.localGuard at hrefused
    split at hrefused
    · cases hrefused
      cases hcls
    · split at hrefused
      · cases hrefused
        cases hcls
      · split at hrefused
        · cases hrefused
          cases hcls
        · cases hrefused
  | limited hv hguard hacquire =>
    obtain ⟨b, hb⟩ := (hrec.passed hv (Option.some.inj hguard)).granted
    rw [hb] at hacquire
    cases hacquire
  | unencodable hv hguard hacquire hpath =>
    obtain ⟨path, hok⟩ := (path_isOk_iff (htext _ (by simp [stringColumns, intentActivity, writeActivity]))
      (htext _ (by simp [stringColumns, intentActivity, writeActivity]))
      (htext _ (by simp [stringColumns, intentActivity, writeActivity]))
      (hcolumns.nonce _ rfl)).mpr (hrec.passed hv (Option.some.inj hguard)).text
    rw [hok] at hpath
    cases hpath
  | sent hv hguard hacquire hpath =>
    have hanswer := (hrec.passed hv (Option.some.inj hguard)).answer
    exact not_answerRecordable_of_escaped hr.symm hcls hanswer

/-- What the handler catches can be recorded, except that a foreign host has to be nameable. -/
theorem recordable_of_failed {e : Exc}
    (h : TechnocoreClient.SendExit client write none w (.error e) urls)
    (hcls : e.cls.isTechnocoreError = true) :
    (PlainDetail e ∧ OutcomeRecordable client write w) ∨
      (client.isPublic = false ∧ client.isLoopback = false ∧ e = foreignRefusal client ∧
        write.verifies = .ok true ∧ (HostNameable client → OutcomeRecordable client write w)) := by
  have hanswered : ∀ {b}, write.verifies = .ok b → ¬ (NonAsciiBody write.did ∧
      ∃ payload, messagePayload write.room write.nonce write.sweptText = .ok payload) :=
    fun hv => verifyMessage_isOk_iff.mp ⟨_, hv⟩
  generalize hr : (Except.error e : Except Exc PyVal) = r at h
  cases h with
  | unverifiable hv =>
    cases hr
    rw [verifyMessage_error hv] at hcls
    cases hcls
  | unverified hv =>
    cases hr
    refine Or.inl ⟨plainDetail_unverified, hanswered hv, fun hv' => ?_, fun hv' => ?_⟩
    · rw [hv] at hv'
      cases hv'
    · rw [hv] at hv'
      cases hv'
  | refused hv hguard =>
    cases hr
    have hrefused : client.localGuard (w.environ WRITE_ENABLE_ENV) = .error e := Option.some.inj hguard
    have hnot : client.localGuard (w.environ WRITE_ENABLE_ENV) ≠ .ok () := by
      rw [hrefused]
      nofun
    have hrec : HostNameable client → OutcomeRecordable client write w := fun hname =>
      ⟨hanswered hv, fun _ => hname, fun _ hpass => absurd hpass hnot⟩
    rcases plainDetail_guard hrefused with ⟨hpub, hloop, rfl⟩ | ⟨hknown, hplain⟩
    · exact Or.inr ⟨hpub, hloop, rfl, hv, hrec⟩
    · exact Or.inl ⟨hplain, hrec (hknown.imp_right Or.inl)⟩
  | limited hv hguard hacquire =>
    cases hr
    cases hcls
  | unencodable hv hguard hacquire hpath =>
    cases hr
    have hvalue := TechnocoreClient.path_error hpath
    generalize e.cls = cls at hcls hvalue
    cases cls <;> simp [ExcClass.isTechnocoreError, ExcClass.isValueError] at hcls hvalue
  | @sent b path hv hguard hacquire hpath =>
    have hpassed : client.localGuard (w.environ WRITE_ENABLE_ENV) = .ok () := Option.some.inj hguard
    refine Or.inl ⟨plainDetail_server hr.symm hcls, hanswered hv,
      fun _ => hostNameable_of_passed hpassed, fun _ _ => ⟨⟨b, hacquire⟩, ?_, ?_⟩⟩
    · exact surrogate_of_path hpath
    · exact answerRecordable_of_caught hr.symm hcls

/-- What the server answered decides about the rest. -/
theorem recordable_of_answered {response : PyVal}
    (h : TechnocoreClient.SendExit client write none w (.ok response) urls) :
    response.isJson = true ∧ (OutcomeRecordable client write w ↔ ValueRecordable response) := by
  generalize hr : (Except.ok response : Except Exc PyVal) = r at h
  cases h with
  | unverifiable | unverified | refused | limited | unencodable => cases hr
  | @sent b path hv hguard hacquire hpath =>
    have hpassed : client.localGuard (w.environ WRITE_ENABLE_ENV) = .ok () := Option.some.inj hguard
    obtain ⟨hjson, hvalue⟩ := answerRecordable_iff_value hr.symm
    refine ⟨hjson, fun h => hvalue.mp (h.passed hv hpassed).answer, fun h => ?_⟩
    exact ⟨verifyMessage_isOk_iff.mp ⟨_, hv⟩, fun _ => hostNameable_of_passed hpassed,
      fun _ _ => ⟨⟨b, hacquire⟩, surrogate_of_path hpath, hvalue.mpr h⟩⟩

end Exits

/-! ## The outcome of an intent -/

section Result

variable [PyRuntime]

/-- Only four parts of the world decide. -/
theorem OutcomeRecordable.of_added [Ed25519] {client : TechnocoreClient}
    {write : SignedWrite} {w w' : World} {rows : List Appended} (h : Added w w' rows) :
    OutcomeRecordable client write w' ↔ OutcomeRecordable client write w := by
  have henviron := congrArg World.environ h.frame
  have hwrites := congrArg World.writes h.frame
  have hclock := congrArg World.clock h.frame
  have hserver := congrArg World.server h.frame
  dsimp only at henviron hwrites hclock hserver
  have hpass : PassRecordable write w' ↔ PassRecordable write w := by
    constructor
    · rintro ⟨hgranted, htext, hanswer⟩
      rw [hwrites, hclock] at hgranted
      rw [hserver] at hanswer
      exact ⟨hgranted, htext, hanswer⟩
    · rintro ⟨hgranted, htext, hanswer⟩
      rw [← hwrites, ← hclock] at hgranted
      rw [← hserver] at hanswer
      exact ⟨hgranted, htext, hanswer⟩
  constructor
  · rintro ⟨hanswered, hnamed, hpassed⟩
    rw [henviron, hpass] at hpassed
    exact ⟨hanswered, hnamed, hpassed⟩
  · rintro ⟨hanswered, hnamed, hpassed⟩
    rw [← henviron, ← hpass] at hpassed
    exact ⟨hanswered, hnamed, hpassed⟩

/-- What a value that gets a row is. -/
theorem valueRecordable_iff [PyBuiltins] {v : PyVal} (hv : v.isJson = true) :
    ValueRecordable v ↔ (∃ hash, outboundHash v = .ok hash) ∧
      ∀ n, outboundSeq v = some n → storable n.toInt = true := by
  rw [outboundHash_isOk_iff hv]
  cases v with
  | leaf s => exact iff_of_true trivial ⟨nofun, nofun⟩
  | list items => exact iff_of_true trivial ⟨nofun, nofun⟩
  | other => exact iff_of_true trivial ⟨nofun, nofun⟩
  | dict items =>
    have hseq : (∀ n, outboundSeq (.dict items) = some n → storable n.toInt = true) ↔
        ∀ n, asInt (PyVal.get (.dict items) (py "seq")) = some n → storable n.toInt = true := by
      simp only [outboundSeq, Option.map_eq_some_iff]
      constructor
      · exact fun h n hn => h (.int n.toInt) ⟨n, hn, rfl⟩
      · rintro h _ ⟨n, hn, rfl⟩
        exact h n hn
    rw [hseq]
    refine and_congr ⟨fun h _ heq => ?_, fun h => h items rfl⟩ Iff.rfl
    cases heq
    exact h

theorem hexOf_of_outboundHash [PyBuiltins] {v : PyVal} {s : PyStr}
    (h : outboundHash v = .ok (some s)) : ∃ digest, s = hexOf digest := by
  cases v with
  | leaf | list | other => cases h
  | dict items =>
    simp only [outboundHash, bind_eq_ok, pure, Except.pure, Except.ok.injEq, Option.some.injEq] at h
    obtain ⟨_, -, data, -, rfl⟩ := h
    exact ⟨_, rfl⟩

end Result

/-! ## What a call leaves behind -/

section Settled

variable [PyRuntime] {client : TechnocoreClient} {write : SignedWrite} {taskId : Option PyStr}
  {w w₁ w' : World}

/-- If the intent was appended, it has its outcome if and only if it can have one. -/
def Settled [Ed25519] (client : TechnocoreClient) (write : SignedWrite) (taskId : Option PyStr)
    (w w' : World) : Prop :=
  ∀ t record rest, w'.trace = w.trace ++ .appended (intentActivity write taskId t) record :: rest →
    (OutcomeRecorded record.activityId rest w'.db ↔ OutcomeRecordable client write w)

omit [PyRuntime] in
theorem not_recorded_of_sent {intentId : PyStr} {urls : List PyStr} {db : Database} :
    ¬ OutcomeRecorded intentId (urls.map .sent) db := by
  rintro ⟨hone, -⟩
  rw [outcomesOf_sent] at hone
  cases hone

omit [PyRuntime] in
theorem recorded_of_row {intentId : PyStr} {urls : List PyStr} {db : Database} {r : Appended}
    (h : r.CommittedIn db) (htype : r.1.activityType ∈ outcomeTypes)
    (href : r.1.refActivityId = some intentId) :
    OutcomeRecorded intentId (urls.map .sent ++ [r.event]) db := by
  refine ⟨?_, not_dangling h htype href⟩
  rw [outcomesOf_row htype href]
  rfl

variable [Ed25519]

theorem settled_of_trace {a : Activity} {record : LedgerRecord} {rest : List Event}
    (htrace : w'.trace = w.trace ++ .appended a record :: rest)
    (h : OutcomeRecorded record.activityId rest w'.db ↔ OutcomeRecordable client write w) :
    Settled client write taskId w w' := by
  intro t record' rest' hrest
  rw [htrace, List.append_cancel_left_eq] at hrest
  cases hrest
  exact h

/-- What is known once the intent is there. -/
structure Intended (write : SignedWrite) (taskId : Option PyStr) (w w₁ : World) (t : UtcTime)
    (record : LedgerRecord) : Prop where
  added : Added w w₁ [(intentActivity write taskId t.isoformat, record)]
  columns : ColumnsAccepted (intentActivity write taskId t.isoformat)
  did_ne : write.did ≠ []
  id_eq : ∃ bits, record.activityId = uuid4 bits
  row : ∃ row ∈ w₁.db.activities, row .activityId = .text record.activityId

omit [Ed25519] in
theorem intended {t : UtcTime} {record : LedgerRecord}
    (h : Added w w₁ [(intentActivity write taskId t.isoformat, record)]) :
    Intended write taskId w w₁ t record := by
  have hmem := List.mem_singleton_self (intentActivity write taskId t.isoformat, record)
  refine ⟨h, h.columnsAccepted hmem, ?_, h.ids _ hmem, ?_⟩
  · obtain ⟨metaText, hprepare⟩ := h.prepared _ hmem
    have hvalid := (prepare_eq_ok.mp hprepare).1
    intro hdid
    unfold validate at hvalid
    rw [if_pos (show (intentActivity write taskId t.isoformat).agentDid = [] from hdid)] at hvalid
    cases hvalid
  · obtain ⟨row, hrow, metaJson, at_, index, prev, hbind⟩ := h.committed _ hmem
    exact ⟨row, hrow, (bindValue_str.mp (hbind .activityId (by decide))).2⟩

omit [Ed25519] in
/-- The events of a call whose intent was followed by a send, and then by rows. -/
theorem Intended.trace {t : UtcTime} {record : LedgerRecord} {urls : List PyStr} {w₂ w₃ : World}
    {rows : List Appended} (h : Intended write taskId w w₁ t record)
    (hend : TechnocoreClient.SendEnd none urls w₁ w₂) (hrows : Added w₂ w₃ rows) :
    w₃.trace = w.trace ++ .appended (intentActivity write taskId t.isoformat) record ::
      (urls.map .sent ++ rows.map Appended.event) := by
  rw [hrows.trace, hend.trace, h.added.trace, List.append_assoc, List.append_assoc]
  rfl

variable [PyBuiltins] {M : Mode} {t : UtcTime} {record : LedgerRecord} {urls : List PyStr} {w₂ : World}

/-- **The failure of a send is recorded**, unless it is about a host that cannot be named. -/
theorem Intended.safe_failed (h : Intended write taskId w w₁ t record) (hM : M.Grows) (hcalm : M.calm)
    {e : Exc} (hexit : TechnocoreClient.SendExit client write none w₁ (.error e) urls)
    (hend : TechnocoreClient.SendEnd none urls w₁ w₂) (hcls : e.cls.isTechnocoreError = true) :
    Proc.Safe (answers M) (fun _ => True) (fun _ w' => Settled client write taskId w w')
      (recordFailed write taskId record.activityId e) w₂ := by
  obtain ⟨bits, hbits⟩ := h.id_eq
  obtain ⟨row, hrow, hrowId⟩ := h.row
  have htype : py "technocore.write.failed" ∈ outcomeTypes := List.mem_cons_of_mem _ List.mem_cons_self
  have hfate := recordable_of_failed hexit hcls
  rw [OutcomeRecordable.of_added h.added] at hfate
  -- a refusal whose `meta` is accepted is appended
  have happendable : ∀ (t' : UtcTime) w', Added w₂ w' [] →
      MetaAccepted (failedActivity write taskId record.activityId e t'.isoformat) →
      Appendable (failedActivity write taskId record.activityId e t'.isoformat) w'.db := by
    intro t' w' h' hmeta
    have hshape : failedActivity write taskId record.activityId e t'.isoformat =
        { writeActivity write "technocore.write.failed" taskId t'.isoformat with
          refActivityId := some (uuid4 bits), tcSeq := none, resultHash := none
          metadata := some (.record (failedItems e)) } := by
      rw [failedActivity, hbits]
      rfl
    exact appendable_outcome h.columns h.did_ne htype hshape (fun _ h => nomatch h)
      (fun _ h => nomatch h) hmeta ⟨row, h'.grown (hend.db ▸ hrow), hrowId.trans (by rw [hbits])⟩
  refine safe_recordFailed hM (fun _ _ => trivial) (fun t' e' w' h' hrefused => ?_)
    fun t' record' w' h' => ⟨trivial, ?_⟩
  · refine settled_of_trace (h.trace hend h') ?_
    rw [List.map_nil, List.append_nil]
    refine iff_of_false not_recorded_of_sent fun hrec => ?_
    refine hrefused hcalm (happendable t' w' h' ?_)
    rcases hfate with ⟨hplain, -⟩ | ⟨hpub, hloop, rfl, hv, -⟩
    · exact metaAccepted_failed hplain
    · rcases hrec.named hv with hname | hname | hname
      · rw [hpub] at hname
        cases hname
      · rw [hloop] at hname
        cases hname
      · exact metaAccepted_foreign hname
  · have hmem := List.mem_singleton_self
      (failedActivity write taskId record.activityId e t'.isoformat, record')
    refine settled_of_trace (h.trace hend h')
      (iff_of_true (recorded_of_row (h'.committed _ hmem) htype rfl) ?_)
    rcases hfate with ⟨-, hrec⟩ | ⟨-, -, rfl, -, hrec⟩
    · exact hrec
    · -- the row is there, so its text has passed the scan
      obtain ⟨metaText, hprepare⟩ := h'.prepared _ hmem
      refine hrec (Or.inr (Or.inr fun text htext => ?_))
      obtain ⟨text', htext', hne⟩ := dumps_failedItems (foreignRefusal client)
      rw [htext] at htext'
      cases htext'
      exact scan_of_prepare hprepare rfl htext hne

/-- **The response of a send is recorded** if and only if it can be hashed and stored. -/
theorem Intended.safe_delivered (h : Intended write taskId w w₁ t record) (hM : M.Grows)
    (hcalm : M.calm) {response : PyVal}
    (hexit : TechnocoreClient.SendExit client write none w₁ (.ok response) urls)
    (hend : TechnocoreClient.SendEnd none urls w₁ w₂) :
    Proc.Safe (answers M) (fun _ => True) (fun _ w' => Settled client write taskId w w')
      (recordDelivered write taskId record.activityId response) w₂ := by
  obtain ⟨bits, hbits⟩ := h.id_eq
  obtain ⟨row, hrow, hrowId⟩ := h.row
  have htype : py "technocore.write.result" ∈ outcomeTypes := List.mem_cons_self
  obtain ⟨hjson, hrec⟩ := recordable_of_answered hexit
  rw [OutcomeRecordable.of_added h.added, valueRecordable_iff hjson] at hrec
  have hunsettled : ∀ w', Added w₂ w' [] → ¬ OutcomeRecordable client write w →
      Settled client write taskId w w' := by
    intro w' h' hnot
    refine settled_of_trace (h.trace hend h') ?_
    rw [List.map_nil, List.append_nil]
    exact iff_of_false not_recorded_of_sent hnot
  refine safe_recordDelivered hM (fun _ _ => trivial) (fun e hunhashed => ?_) fun hash hhash =>
    ⟨fun t' e w' h' hrefused => ?_, fun t' record' w' h' => ⟨trivial, ?_⟩⟩
  · refine hunsettled w₂ (.refl w₂) fun hr => ?_
    obtain ⟨hash, hhash⟩ := (hrec.mp hr).1
    rw [hunhashed] at hhash
    cases hhash
  · refine hunsettled w' h' fun hr => hrefused hcalm ?_
    have hshape : deliveredActivity write taskId record.activityId (outboundSeq response) hash
        t'.isoformat = { writeActivity write "technocore.write.result" taskId t'.isoformat with
          refActivityId := some (uuid4 bits), tcSeq := outboundSeq response, resultHash := hash
          metadata := none } := by
      rw [deliveredActivity, hbits]
      rfl
    refine appendable_outcome h.columns h.did_ne htype hshape (hrec.mp hr).2 (fun s hs => ?_)
      (Or.inl rfl) ⟨row, h'.grown (hend.db ▸ hrow), hrowId.trans (by rw [hbits])⟩
    rw [hs] at hhash
    exact hexOf_of_outboundHash hhash
  · have hmem := List.mem_singleton_self (deliveredActivity write taskId record.activityId
      (outboundSeq response) hash t'.isoformat, record')
    exact settled_of_trace (h.trace hend h') (iff_of_true
      (recorded_of_row (h'.committed _ hmem) htype rfl)
      (hrec.mpr ⟨⟨hash, hhash⟩, (h'.columnsAccepted hmem).seq⟩))

end Settled

/-! ## The result -/

section Main

variable [PyRuntime] [PyBuiltins] [Ed25519]

end Main

section Limited

attribute [local instance] asciiRuntime asciiBuiltins acceptAll

/-- Nobody else writes, and the database accepts writes. -/
def calmMode : Mode := ⟨fun db db' => db' = db, True⟩

theorem calmMode_grows : calmMode.Grows := by
  intro db db' h
  rw [show db' = db from h]
  exact List.Subset.refl _

def loopbackClient : TechnocoreClient := ⟨py "http://127.0.0.1:8080", py "127.0.0.1"⟩

/-- Writes are enabled, and the bucket is empty: the next token is 1000 seconds away. -/
def limitedWorld : World where
  db := ⟨[], []⟩
  gates := []
  writes := ⟨1, 1 / 1000, 0, 0, TokenBucket.oneToken.capacity_pos, by decide +kernel⟩
  clock := [0, 0, 0, 0]
  environ _ := some (py "1")
  server := .ok emptyResponse
  trace := []

theorem limitedWorld_refuses : ∃ t,
    (limitedWorld.writes.acquire limitedWorld.clock).1 = .refused t := ⟨1000, by decide +kernel⟩

/-- The intent of the sample write. -/
def lobbyIntent : AppendCall :=
  ⟨intentActivity lobbyHello none (UtcTime.isoformat ⟨2026, 1, 1, 0, 0, 0⟩), 0, ⟨2026, 1, 1, 0, 0, 0⟩⟩

theorem columnsAccepted_lobbyIntent : ColumnsAccepted lobbyIntent.activity := by
  have hplain : ∀ s ∈ [lobbyHello.did, py "technocore.write.intent", lobbyHello.room,
      lobbyHello.signature, py "NONE"],
      Unmarked s ∧ cp ' ' ∉ s ∧ ∀ c ∈ s, c.isSurrogate = false := by
    decide
  refine ⟨fun s hs => ?_, nofun, ?_⟩
  · have hs' : s ∈ [lobbyHello.did, py "technocore.write.intent", lobbyHello.room,
        lobbyHello.signature, py "NONE"] ∨ s = UtcTime.isoformat ⟨2026, 1, 1, 0, 0, 0⟩ ∨
          s = hexdigest lobbyHello.payload := by
      simp only [stringColumns, lobbyIntent, intentActivity, writeActivity, List.mem_filterMap,
        List.mem_cons, List.not_mem_nil, or_false, id_eq, exists_eq_right, Option.some.injEq,
        reduceCtorEq, false_or] at hs ⊢
      tauto
    rcases hs' with h | rfl | rfl
    · obtain ⟨hmarks, hblank, hsurrogate⟩ := hplain s h
      exact textAccepted_of_unmarked hmarks hblank hsurrogate
    · exact textAccepted_isoformat _
    · exact textAccepted_hexOf _
  · rintro _ ⟨⟩
    decide

theorem appendable_lobbyIntent : Appendable lobbyIntent.activity ⟨[], []⟩ := by
  refine appendable_of_accepted (by decide) columnsAccepted_lobbyIntent ?_ nofun
  refine metaAccepted_record rfl (fun kv hkv => ?_) (by decide)
  rw [List.mem_singleton.mp hkv]
  exact ⟨by decide, _, py "5", rfl, by decide, by decide⟩

/-- **A refused token leaves the intent without an outcome.** -/
theorem limited_run : ∃ (t : PyStr) (record : LedgerRecord) (w' : World) (e : Exc),
    Proc.Exec (answers calmMode) (sendAndRecord loopbackClient lobbyHello none) limitedWorld (.error e)
      w' ∧
    w'.trace = limitedWorld.trace ++ .appended (intentActivity lobbyHello none t) record ::
      ([] : List PyStr).map .sent := by
  obtain ⟨metaText, record, db', -, -, hrun⟩ := appended_of_appendable lobbyIntent
    ChainInvariant.empty.sound rfl appendable_lobbyIntent fun _ _ => ⟨nofun, fun _ _ _ _ => nofun⟩
  obtain ⟨t, ht⟩ := limitedWorld_refuses
  -- the intent is there, and then there is no token
  have hguard : some (loopbackClient.localGuard (limitedWorld.environ WRITE_ENABLE_ENV)) =
      some (.ok ()) := by
    decide
  let w₁ : World := { limitedWorld with db := db', trace := [.appended lobbyIntent.activity record] }
  have hexit : TechnocoreClient.SendExit loopbackClient lobbyHello none w₁ _ _ :=
    .limited (t := t) (by decide) hguard (Prod.ext ht rfl)
  obtain ⟨w', hsend, htrace⟩ := TechnocoreClient.send_exec (M := calmMode) hexit
  have hnow : Proc.Exec (answers calmMode) utcNow limitedWorld (.ok (lobbyIntent.now.isoformat))
      limitedWorld := Proc.exec_call ⟨rfl, _, rfl⟩
  have happend : Proc.Exec (answers calmMode) (ledgerAppend lobbyIntent.activity) limitedWorld
      (.ok record) w₁ := ledgerAppend_exec rfl hrun
  have hintent : Proc.Exec (answers calmMode) (recordIntent lobbyHello none) limitedWorld
      (.ok record.activityId) w₁ := hnow.bind (happend.bind .refl)
  exact ⟨_, record, w', _, hintent.bind (hsend.handle .refl), htrace⟩

end Limited

end FlopOffice.Technocore
