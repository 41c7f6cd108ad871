/-
# FlopOffice.Technocore.PublishOutcome — which publish attempts get their result row.

After four rows, the last of them saying that nothing was published yet, a gate is made and the message is
sent. From there on the call owes one more row, which refers to the fourth: what came of the attempt. The
handler around the send catches `TechnocoreError` and nothing else, and what follows it hashes the response
and stores its `seq`.

`attempt_accounted_iff` says exactly when the row is there at the end: the bucket grants the request, and
the server answers with something that can be decoded, hashed and stored (`AttemptRecordable`).
-/
import FlopOffice.Technocore.OutcomeRuns
import FlopOffice.Technocore.PublishOnce

namespace FlopOffice.Technocore

open FlopOffice.Identity FlopOffice.Lib FlopOffice.Proof FlopOffice.Python FlopOffice.Storage

/-! ## The response -/

section Response

variable [PyRuntime]

/-- `_response_hash` goes through: the value is not nested too deeply for the encoder, has no NaN and no
infinity, and no lone surrogate in any string. -/
structure ResponseHashable (v : PyVal) : Prop where
  depth : nesting v ≤ PyRuntime.recursionLimit
  finite : v.allFinite = true
  text : ∀ s ∈ strings v, ∀ c ∈ s, c.isSurrogate = false

theorem responseHash_isOk_iff {v : PyVal} (hv : v.isJson = true) :
    (∃ hash, responseHash v = .ok hash) ↔ ResponseHashable v := by
  simp only [responseHash, bind_eq_ok, pure, Except.pure, Except.ok.injEq]
  constructor
  · rintro ⟨_, t, ht, b, hb, -⟩
    obtain ⟨hdepth, hfinite⟩ := (dumpsVal_isOk_iff hv).mp ⟨t, ht⟩
    exact ⟨hdepth, hfinite, (utf8_dumps_iff ht).mp ⟨b, hb⟩⟩
  · rintro ⟨hdepth, hfinite, htext⟩
    obtain ⟨t, ht⟩ := (dumpsVal_isOk_iff hv).mpr ⟨hdepth, hfinite⟩
    obtain ⟨b, hb⟩ := (utf8_dumps_iff ht).mpr htext
    exact ⟨_, t, ht, b, hb, rfl⟩

theorem hexOf_of_responseHash {v : PyVal} {hash : PyStr} (h : responseHash v = .ok hash) :
    ∃ digest, hash = hexOf digest := by
  simp only [responseHash, bind_eq_ok, pure, Except.pure, Except.ok.injEq] at h
  obtain ⟨_, -, data, -, rfl⟩ := h
  exact ⟨_, rfl⟩

/-- A value that gets its row: it can be hashed, and the `seq` of a success fits 64 bits. -/
structure ResponseRecordable (v : PyVal) : Prop where
  hashable : ResponseHashable v
  seq : v.get (py "ok") = .leaf (.bool true) → ∀ n, asInt (v.get (py "seq")) = some n →
    storable n.toInt = true

/-- What can be recorded of the HTTP client and the server: an `httpx.HTTPError`, a refusal, a body that is
not JSON but a text whose start can be encoded, or a value that gets its row. -/
def ServerRecordable : Except GetError Response → Prop
  | .error (.http _) => True
  | .error (.other ..) => False
  | .ok response => 400 ≤ response.statusCode ∨ match response.json with
    | .error e => e.cls.isValueError = true ∧
      ∃ text, response.text = .ok text ∧ ∀ c ∈ text.take 512, c.isSurrogate = false
    | .ok v => ResponseRecordable v

/-- What a text that is not JSON is taken for. -/
theorem responseRecordable_raw (text : PyStr) : ResponseRecordable (.record [textItem "raw" text]) ↔
    ∀ c ∈ text, c.isSurrogate = false := by
  have hstrings : strings (.record [textItem "raw" text]) = [py "raw", text] := rfl
  have hkey : ∀ c ∈ py "raw", c.isSurrogate = false := by decide
  constructor
  · intro h
    exact h.hashable.text text (hstrings ▸ List.mem_cons_of_mem _ List.mem_cons_self)
  · intro h
    refine ⟨⟨Nat.le_trans (by decide : 1 ≤ 16) PyRuntime.recursionLimit_ge, rfl, ?_⟩, fun hok => nomatch hok⟩
    rw [hstrings]
    intro s hs
    rcases List.mem_cons.mp hs with rfl | hs
    · exact hkey
    · rw [List.mem_singleton.mp hs]
      exact h

/-- What a response is taken for is JSON, and decides whether it can be recorded. -/
theorem serverRecordable_iff_value {server : Except GetError Response} {v : PyVal}
    (h : TechnocoreClient.serverResult server = .ok v) :
    v.isJson = true ∧ (ServerRecordable server ↔ ResponseRecordable v) := by
  unfold TechnocoreClient.serverResult at h
  cases server with
  | error raised => cases raised <;> cases h
  | ok response =>
    dsimp only at h
    split at h
    · cases h
    · rename_i hstatus
      have hanswer : ServerRecordable (.ok response) ↔ match response.json with
          | .error e => e.cls.isValueError = true ∧
            ∃ text, response.text = .ok text ∧ ∀ c ∈ text.take 512, c.isSurrogate = false
          | .ok v => ResponseRecordable v := or_iff_right hstatus
      rw [hanswer]
      unfold TechnocoreClient.responseValue at h
      cases hjson : response.json with
      | ok v' =>
        rw [hjson] at h
        cases h
        exact ⟨response.json_value _ hjson, Iff.rfl⟩
      | error e =>
        rw [hjson] at h
        dsimp only at h
        split at h
        · rename_i hvalue
          obtain ⟨text, htext, rfl⟩ := map_eq_ok.mp h
          refine ⟨rfl, (and_iff_right hvalue).trans (Iff.trans ?_ (responseRecordable_raw _).symm)⟩
          rw [htext]
          simp only [Except.ok.injEq, exists_eq_left']
        · cases h

/-- What the server makes the send raise is caught exactly if it can be recorded. -/
theorem serverRecordable_iff_caught {server : Except GetError Response} {e : Exc}
    (h : TechnocoreClient.serverResult server = .error e) :
    ServerRecordable server ↔ e.cls.isTechnocoreError = true := by
  constructor
  · intro hserver
    by_contra hcls
    unfold TechnocoreClient.serverResult at h
    cases server with
    | error raised =>
      cases raised with
      | http name =>
        cases h
        exact hcls rfl
      | other e' foreign => exact hserver
    | ok response =>
      dsimp only at h
      split at h
      · cases h
        exact hcls rfl
      · rename_i hstatus
        obtain ⟨-, e', hjson, hno⟩ := responseValue_error h
        have hanswer := hserver.resolve_left hstatus
        rw [hjson] at hanswer
        obtain ⟨hvalue, text, htext, -⟩ := hanswer
        exact hno ⟨hvalue, text, htext⟩
  · intro hcls
    rcases serverResult_caught h hcls with ⟨name, rfl, -⟩ | ⟨response, rfl, hstatus, -⟩
    · exact trivial
    · exact Or.inl hstatus

end Response

/-! ## The attempt -/

section Attempt

variable [PyRuntime] [PyBuiltins] [Ed25519] {client : TechnocoreClient} {proof : AnnouncementProof}
  {payload : Bytes} {object : OneTimePublicWriteGate} {capability : CapabilitySigner} {room sha : PyStr}
  {confirm : Bool} {w : World}

/-- The condition: a public client's request is granted by its bucket, and the server's answer can be
recorded. Another client has no attempt: the gate is not made for its host. -/
def AttemptRecordable (client : TechnocoreClient) (w : World) : Prop :=
  client.isPublic = true → (∃ b, w.writes.acquire w.clock = (.granted, b)) ∧ ServerRecordable w.server

omit [PyRuntime] in
theorem Prepared.text (h : Prepared capability client room sha confirm proof payload object) :
    ∃ data, utf8 proof.canonicalText = .ok data ∧ hexdigest data = sha := by
  obtain ⟨chosen, hbuilt⟩ := h.built
  obtain ⟨data, hdata, hhash⟩ := map_eq_ok.mp hbuilt.canonicalTextHash_eq
  refine ⟨data, ?_, hhash.trans h.hash_eq⟩
  rw [hbuilt.canonicalText_eq]
  exact hdata

omit [PyRuntime] in
/-- **The gate that is made for the message lets it pass.** -/
theorem Prepared.admits (h : Prepared capability client room sha confirm proof payload object) :
    (object.consume client.host (proofWrite proof payload)).1 = .ok () := by
  obtain ⟨hopen, hhost, hroom, hsha, hnonce⟩ := OneTimePublicWriteGate.create_eq_ok h.gate
  obtain ⟨data, hdata, hhash⟩ := h.text
  refine OneTimePublicWriteGate.consume_of_admits hopen ⟨hhost.symm, hroom.symm, ?_, data, hdata, ?_⟩
  · show proof.nonce.toInt = object.nonce
    rw [hnonce]
    rfl
  · rw [hhash, hsha]

theorem Prepared.guard (h : Prepared capability client room sha confirm proof payload object)
    {gates : List OneTimePublicWriteGate} (hw : w.gates = gates ++ [object]) :
    (client.isPublic = false ∧ ∃ e, e.cls = .publicWriteRefused ∧
      client.guardResult (proofWrite proof payload) (some gates.length) w = some (.error e)) ∨
    (client.isPublic = true ∧
      client.guardResult (proofWrite proof payload) (some gates.length) w = some (.ok ())) := by
  unfold TechnocoreClient.guardResult
  dsimp only
  cases hpublic : client.isPublic with
  | false => exact Or.inl ⟨rfl, _, rfl, rfl⟩
  | true =>
    refine Or.inr ⟨rfl, ?_⟩
    rw [if_neg (by simp), hw, List.getElem?_concat_length, Option.map_some, h.admits]

theorem Prepared.guard_public (h : Prepared capability client room sha confirm proof payload object)
    (hpublic : client.isPublic = true) {gates : List OneTimePublicWriteGate}
    (hw : w.gates = gates ++ [object]) :
    client.guardResult (proofWrite proof payload) (some gates.length) w = some (.ok ()) := by
  rcases h.guard hw with ⟨hprivate, -⟩ | ⟨-, hguard⟩
  · rw [hpublic] at hprivate
    exact absurd hprivate.symm Bool.false_ne_true
  · exact hguard

/-- A prepared message that was recorded has its path. -/
theorem Prepared.path (h : Prepared capability client room sha confirm proof payload object)
    {blockedId : PyStr} {db : Database} (hrec : Recorded proof blockedId db) :
    ∃ path, (proofWrite proof payload).path = .ok path := by
  obtain ⟨data, hdata, -⟩ := h.text
  exact (path_isOk_iff hrec.room.1 hrec.did.1 hrec.signature.1 hrec.nonce).mpr
    (utf8_isOk_iff.mp ⟨data, hdata⟩)

/-- **How the send of a prepared message ends.** It raises what the handler catches, or returns what can be
recorded, exactly if the attempt can be recorded. -/
theorem Prepared.exit (h : Prepared capability client room sha confirm proof payload object)
    {gates : List OneTimePublicWriteGate} (hw : w.gates = gates ++ [object]) {blockedId : PyStr}
    {db : Database} (hrec : Recorded proof blockedId db) {r : Except Exc PyVal} {urls : List PyStr}
    (hexit : TechnocoreClient.SendExit client (proofWrite proof payload) (some gates.length) w r urls) :
    (∀ e, r = .error e → (AttemptRecordable client w ↔ e.cls.isTechnocoreError = true)) ∧
    ∀ v, r = .ok v → v.isJson = true ∧ (AttemptRecordable client w ↔ ResponseRecordable v) := by
  have hpath := h.path hrec
  have hguard := h.guard hw
  cases hexit with
  | unverifiable hv =>
    rw [h.verifies] at hv
    cases hv
  | unverified hv =>
    rw [h.verifies] at hv
    cases hv
  | refused hv hrefused =>
    refine ⟨?_, nofun⟩
    rintro _ ⟨⟩
    rcases hguard with ⟨hprivate, e, hcls, he⟩ | ⟨-, he⟩
    · rw [he] at hrefused
      cases hrefused
      refine iff_of_true (fun hpublic => ?_) (by rw [hcls]; rfl)
      rw [hprivate] at hpublic
      cases hpublic
    · rw [he] at hrefused
      cases hrefused
  | limited hv hpassed hlimited =>
    refine ⟨?_, nofun⟩
    rintro _ ⟨⟩
    rcases hguard with ⟨-, e, -, he⟩ | ⟨hpublic, -⟩
    · rw [he] at hpassed
      cases hpassed
    · refine iff_of_false (fun hr => ?_) nofun
      obtain ⟨b, hgranted⟩ := (hr hpublic).1
      rw [hlimited] at hgranted
      cases hgranted
  | unencodable hv hpassed hgranted hunencodable =>
    obtain ⟨path, hpath⟩ := hpath
    rw [hpath] at hunencodable
    cases hunencodable
  | @sent b path hv hpassed hgranted hpath' =>
    rcases hguard with ⟨-, e, -, he⟩ | ⟨hpublic, -⟩
    · rw [he] at hpassed
      cases hpassed
    have hserver : AttemptRecordable client w ↔ ServerRecordable w.server :=
      ⟨fun hr => (hr hpublic).2, fun hr _ => ⟨⟨b, hgranted⟩, hr⟩⟩
    refine ⟨fun e he => ?_, fun v hvalue => ?_⟩
    · exact hserver.trans (serverRecordable_iff_caught he)
    · obtain ⟨hjson, hrecordable⟩ := serverRecordable_iff_value hvalue
      exact ⟨hjson, hserver.trans hrecordable⟩

end Attempt

/-! ## The rows of a call -/

/-- `meta["publish_status"]`. -/
def publishStatus (a : Activity) : PyVal :=
  match a.metadata with
  | some v => v.get (py "publish_status")
  | none => .leaf .none

/-- The rows among the events that have this type. -/
def rowsOfType (type : String) (events : List Event) : List Appended :=
  (events.filterMap Event.appended?).filter fun r => decide (r.1.activityType = py type)

/-- **The attempt is accounted for**: there is one row that says nothing was published yet, and exactly one
result row; the result refers to the other, is committed, and says PUBLISHED only of a call that returns. -/
def Accounted (events : List Event) (db : Database) (r : Except Exc AnnouncementPublishResult) : Prop :=
  ∃ blocked result, rowsOfType "technocore_message_publish_blocked" events = [blocked] ∧
    rowsOfType "technocore_message_publish_result" events = [result] ∧
    result.1.refActivityId = some blocked.2.activityId ∧ result.CommittedIn db ∧
    (publishStatus result.1 = .leaf (.str PUBLISHED) → ∃ published, r = .ok published)

theorem rowsOfType_append (type : String) (events events' : List Event) :
    rowsOfType type (events ++ events') = rowsOfType type events ++ rowsOfType type events' := by
  rw [rowsOfType, List.filterMap_append, List.filter_append]
  rfl

theorem rowsOfType_silent {type : String} {events : List Event}
    (h : ∀ e ∈ events, e.appended? = none) : rowsOfType type events = [] := by
  rw [rowsOfType, List.filterMap_eq_nil_iff.mpr h, List.filter_nil]

theorem rowsOfType_rows (type : String) (rows : List Appended) :
    rowsOfType type (rows.map Appended.event) =
      rows.filter fun r => decide (r.1.activityType = py type) := by
  have hrows : (rows.map Appended.event).filterMap Event.appended? = rows := by
    rw [List.filterMap_map]
    exact List.filterMap_some
  rw [rowsOfType, hrows]

section Settled

variable [PyRuntime] [PyBuiltins] [Ed25519] {client : TechnocoreClient} {proof : AnnouncementProof}
  {s : ProofStamps} {w w₁ w₂ w₃ w' : World} {urls : List PyStr} {rows : List Appended}
  {r : Except Exc AnnouncementPublishResult}

/-- If the send was called, the attempt is accounted for if and only if it can be. -/
def AttemptSettled (client : TechnocoreClient) (w : World) (r : Except Exc AnnouncementPublishResult)
    (w' : World) : Prop :=
  ∀ events, w'.trace = w.trace ++ events → w'.gates.length = w.gates.length + 1 →
    (Accounted events w'.db r ↔ AttemptRecordable client w)

omit [PyRuntime] [PyBuiltins] [Ed25519] in
/-- The rows of a proof, by type. -/
theorem filter_fourRows :
    (fourRows proof announcementTaskId s).filter (fun r =>
      decide (r.1.activityType = py "technocore_message_publish_blocked")) =
        [(blockedActivity proof announcementTaskId s.t₄ s.records.verifiedLocal.activityId,
          s.records.publishBlocked)] ∧
    (fourRows proof announcementTaskId s).filter (fun r =>
      decide (r.1.activityType = py "technocore_message_publish_result")) = [] := by
  have hblocked : ∀ type ∈ ["technocore_message_prepare_intent", "technocore_message_signed_local",
      "technocore_message_verified_local"], py type ≠ py "technocore_message_publish_blocked" := by
    simp [py_inj]
  have hresult : ∀ type ∈ ["technocore_message_prepare_intent", "technocore_message_signed_local",
      "technocore_message_verified_local", "technocore_message_publish_blocked"],
      py type ≠ py "technocore_message_publish_result" := by
    simp [py_inj]
  simp only [List.forall_mem_cons] at hblocked hresult
  obtain ⟨hb₁, hb₂, hb₃, -⟩ := hblocked
  obtain ⟨hr₁, hr₂, hr₃, hr₄, -⟩ := hresult
  unfold fourRows
  constructor
  · rw [List.filter_cons_of_neg, List.filter_cons_of_neg, List.filter_cons_of_neg,
      List.filter_cons_of_pos, List.filter_nil]
    · exact decide_eq_true rfl
    · exact fun h => hb₃ (of_decide_eq_true h)
    · exact fun h => hb₂ (of_decide_eq_true h)
    · exact fun h => hb₁ (of_decide_eq_true h)
  · rw [List.filter_cons_of_neg, List.filter_cons_of_neg, List.filter_cons_of_neg,
      List.filter_cons_of_neg, List.filter_nil]
    · exact fun h => hr₄ (of_decide_eq_true h)
    · exact fun h => hr₃ (of_decide_eq_true h)
    · exact fun h => hr₂ (of_decide_eq_true h)
    · exact fun h => hr₁ (of_decide_eq_true h)

/-- A call that has sent, and added `rows` after that. -/
structure Sent (proof : AnnouncementProof) (s : ProofStamps) (rows : List Appended) (w w' : World) :
    Prop where
  trace : ∃ signed urls : List Event, (∀ e ∈ signed, e.appended? = none) ∧
    (∀ e ∈ urls, e.appended? = none) ∧
    w'.trace = w.trace ++ (signed ++ ((fourRows proof announcementTaskId s).map Appended.event ++
      (urls ++ rows.map Appended.event)))

omit [PyBuiltins] [Ed25519] in
theorem Sent.of_added {gates : List OneTimePublicWriteGate} (hquiet : Quiet w w₁)
    (hfour : Added w₁ w₂ (fourRows proof announcementTaskId s)) {gate : Option Nat}
    (hend : TechnocoreClient.SendEnd gate urls { w₂ with gates := gates } w₃) (h : Added w₃ w' rows) :
    Sent proof s rows w w' := by
  obtain ⟨signed, hsigned, htrace⟩ := hquiet.trace
  refine ⟨signed, urls.map .sent, fun e he => (hsigned e he).1, fun e he => ?_, ?_⟩
  · obtain ⟨url, -, rfl⟩ := List.mem_map.mp he
    rfl
  · rw [h.trace, hend.trace]
    show w₂.trace ++ _ ++ _ = _
    rw [hfour.trace, htrace]
    simp only [List.append_assoc]

omit [PyRuntime] [PyBuiltins] [Ed25519] in
/-- The rows of one type, among what such a call did. -/
theorem Sent.rowsOfType (h : Sent proof s rows w w') {events : List Event}
    (hevents : w'.trace = w.trace ++ events) (type : String) :
    Technocore.rowsOfType type events = (fourRows proof announcementTaskId s ++ rows).filter fun r =>
      decide (r.1.activityType = py type) := by
  obtain ⟨signed, urls, hsigned, hurls, htrace⟩ := h.trace
  rw [htrace, List.append_cancel_left_eq] at hevents
  rw [← hevents, rowsOfType_append, rowsOfType_append, rowsOfType_append, rowsOfType_silent hsigned,
    rowsOfType_silent hurls, rowsOfType_rows, rowsOfType_rows, List.filter_append]
  rfl

omit [PyBuiltins] [Ed25519] in
/-- A call that adds no row after the send is not accounted for. -/
theorem settled_of_no_row (h : Sent proof s [] w w') (hcond : ¬ AttemptRecordable client w) :
    AttemptSettled client w r w' := by
  intro events hevents _
  refine iff_of_false ?_ hcond
  rintro ⟨_, result, -, hresult, -⟩
  rw [h.rowsOfType hevents, List.append_nil, filter_fourRows.2] at hresult
  exact absurd hresult (List.cons_ne_nil _ _).symm

omit [PyBuiltins] [Ed25519] in
/-- The result row accounts for the attempt. -/
theorem settled_of_row {delivered : Bool} {status : PyStr} {hash error : Option PyStr}
    {seq : Option PyInt} {t : PyStr} {record : LedgerRecord}
    (h : Sent proof s [(resultActivity ⟨proof, s.records⟩ delivered status hash seq error t, record)]
      w w')
    (hcommitted : Appended.CommittedIn
      (resultActivity ⟨proof, s.records⟩ delivered status hash seq error t, record) w'.db)
    (hstatus : status = PUBLISHED → ∃ published, r = .ok published)
    (hcond : AttemptRecordable client w) : AttemptSettled client w r w' := by
  intro events hevents _
  refine iff_of_true ⟨(blockedActivity proof announcementTaskId s.t₄ s.records.verifiedLocal.activityId,
    s.records.publishBlocked), _, ?_, ?_, rfl, hcommitted, fun hpublished => hstatus ?_⟩ hcond
  · have hother : py "technocore_message_publish_result" ≠ py "technocore_message_publish_blocked" := by
      simp [py_inj]
    rw [h.rowsOfType hevents, List.filter_append, filter_fourRows.1, List.filter_cons_of_neg,
      List.filter_nil, List.append_nil]
    exact fun h => hother (of_decide_eq_true h)
  · rw [h.rowsOfType hevents, List.filter_append, filter_fourRows.2, List.filter_cons_of_pos,
      List.filter_nil, List.nil_append]
    exact decide_eq_true rfl
  · have hget : publishStatus (resultActivity ⟨proof, s.records⟩ delivered status hash seq error t) =
        .leaf (.str status) := rfl
    rw [hget] at hpublished
    injection hpublished with hpublished
    injection hpublished

omit [PyBuiltins] [Ed25519] in
/-- Four parts of the world decide. -/
theorem attemptRecordable_congr (hwrites : w'.writes = w.writes) (hclock : w'.clock = w.clock)
    (hserver : w'.server = w.server) : AttemptRecordable client w' ↔ AttemptRecordable client w := by
  unfold AttemptRecordable
  rw [hwrites, hclock, hserver]

variable {M : Mode} {capability : CapabilitySigner} {room sha : PyStr} {confirm : Bool}
  {payload : Bytes} {object : OneTimePublicWriteGate}

/-- **From the send on**: one row, if the attempt can be recorded. -/
theorem Prepared.safe_send (hM : M.Grows) (hcalm : M.calm)
    (h : Prepared capability client room sha confirm proof payload object) (hquiet : Quiet w w₁)
    (hfour : Added w₁ w₂ (fourRows proof announcementTaskId s)) :
    Proc.Safe (answers M) (fun _ => True) (AttemptSettled client w)
      (sendPrepared client ⟨proof, s.records⟩ (proofWrite proof payload) w₂.gates.length)
      { w₂ with gates := w₂.gates ++ [object] } := by
  have hrec := recorded_of_added hfour
  obtain ⟨hpublishedText, hunexpectedText, hfailed⟩ := plainText_status
  -- the rows of the proof are not what decides
  obtain ⟨hwrites, hclock, hserver⟩ := hquiet.surroundings hfour
  have hcond : AttemptRecordable client { w₂ with gates := w₂.gates ++ [object] } ↔
      AttemptRecordable client w := attemptRecordable_congr hwrites hclock hserver
  have happendable : ∀ {urls w' w'' delivered status hash error seq} {t : UtcTime},
      TechnocoreClient.SendEnd (some w₂.gates.length) urls
        { w₂ with gates := w₂.gates ++ [object] } w' → Added w' w'' [] → PlainText status →
      (∀ s, hash = some s → ∃ digest, s = hexOf digest) → (∀ s, error = some s → PlainText s) →
      (∀ n, seq = some n → storable n.toInt = true) →
      Appendable (resultActivity ⟨proof, s.records⟩ delivered status hash seq error t.isoformat)
        w''.db := by
    intro urls w' w'' delivered status hash error seq t hend h' hstatus hhash herror hseq
    have hgrown : w₂.db.activities ⊆ w''.db.activities := by
      have hsub := h'.grown
      rwa [hend.db] at hsub
    exact appendable_resultActivity (hrec.grow hgrown) h.plainText_hash hstatus hhash herror hseq
  have hnone : ∀ {α : Type} {P : α → Prop}, ∀ x, (none : Option α) = some x → P x := by
    intro α P x hx
    exact absurd hx.symm (Option.some_ne_none x)
  refine safe_sendPrepared hM (fun _ _ => trivial) (fun e urls w' hexit hend hcls => ?_)
    (fun e urls w' hexit hend hcls => ⟨fun _ _ => trivial, fun t e' w'' h' hrefused => ?_,
      fun t record w'' h' => ⟨trivial, fun e' => ?_⟩⟩) fun response urls w' hexit hend => ?_
  · refine settled_of_no_row (.of_added hquiet hfour hend (.refl w')) ?_
    rw [← hcond, (h.exit rfl hrec hexit).1 e rfl, hcls]
    exact Bool.false_ne_true
  · refine absurd (happendable hend h' hfailed hnone (fun s hs => ?_) hnone) (hrefused hcalm)
    cases hs
    exact technocoreErrorName_plain e
  · refine settled_of_row (.of_added hquiet hfour hend h') (h'.committed _ List.mem_cons_self)
      (fun hstatus => absurd hstatus (by simp [PUBLISHED, py_inj])) ?_
    exact hcond.mp (((h.exit rfl hrec hexit).1 e rfl).mpr hcls)
  · obtain ⟨hjson, hrecordable⟩ := (h.exit rfl hrec hexit).2 response rfl
    rw [hcond] at hrecordable
    refine safe_recordResponse hM (fun _ _ => trivial) (fun e hunhashed => ?_)
      (fun hash hhash hunexpected => ⟨fun t e w'' h' hrefused => ?_, fun t record w'' h' =>
        ⟨trivial, fun e => ?_⟩⟩)
      fun hash seq hhash hok hseq => ⟨fun t e w'' h' hrefused => ?_, fun t record w'' h' =>
        ⟨trivial, ?_⟩⟩
    · refine settled_of_no_row (.of_added hquiet hfour hend (.refl w')) fun hr => ?_
      obtain ⟨hash, hhash⟩ := (responseHash_isOk_iff hjson).mpr (hrecordable.mp hr).hashable
      rw [hunhashed] at hhash
      cases hhash
    · refine absurd (happendable hend h' hunexpectedText (fun s hs => ?_) hnone hnone)
        (hrefused hcalm)
      cases hs
      exact hexOf_of_responseHash hhash
    · refine settled_of_row (.of_added hquiet hfour hend h') (h'.committed _ List.mem_cons_self)
        (fun hstatus => absurd hstatus (by simp [PUBLISHED, py_inj])) (hrecordable.mpr ⟨?_, fun hok n hn => ?_⟩)
      · exact (responseHash_isOk_iff hjson).mp ⟨hash, hhash⟩
      · exact absurd hn (hunexpected n hok)
    · refine settled_of_no_row (.of_added hquiet hfour hend h') fun hr => ?_
      refine hrefused hcalm (happendable hend h' hpublishedText (fun s hs => ?_) hnone
        fun n hn => ?_)
      · cases hs
        exact hexOf_of_responseHash hhash
      · cases hn
        exact (hrecordable.mp hr).seq hok _ hseq
    · refine settled_of_row (.of_added hquiet hfour hend h') (h'.committed _ List.mem_cons_self)
        (fun _ => ⟨_, rfl⟩) (hrecordable.mpr ⟨?_, fun _ n hn => ?_⟩)
      · exact (responseHash_isOk_iff hjson).mp ⟨hash, hhash⟩
      · rw [hseq] at hn
        cases hn
        exact (h'.columnsAccepted List.mem_cons_self).seq _ rfl

end Settled

/-! ### An attempt that gets no token -/

section Refused

attribute [local instance] asciiRuntime asciiBuiltins acceptAll

/-- The hash of the payload of the announcement, with the first nonce. -/
def announcementPayloadHash : PyStr :=
  py "329d9540813fb887cbf6b289f7e779adfe6308837c6c939dcf6e27960b211fbf"

/-- What the sample signer makes of the announcement. -/
def announcementProof : AnnouncementProof where
  did := lobbySigner.did.did
  room := FIRST_ANNOUNCEMENT_ROOM
  nonce := .int 1
  originalText := FIRST_ANNOUNCEMENT_TEXT
  canonicalText := FIRST_ANNOUNCEMENT_TEXT
  originalTextHash := FIRST_ANNOUNCEMENT_SHA256
  canonicalTextHash := FIRST_ANNOUNCEMENT_SHA256
  payloadHash := announcementPayloadHash
  signature := List.replicate 86 (cp 'A')
  signingAlgorithm := py "Ed25519"
  canonicalizationProfile := CANONICALIZATION_PROFILE
  technocoreStatus := NOT_SENT
  verified := true

/-- The announcement, signed. -/
theorem announcement_signed :
    (messagePayload FIRST_ANNOUNCEMENT_ROOM (.int 1) FIRST_ANNOUNCEMENT_TEXT DEFAULT_SWEEP true).map
      hexdigest = .ok announcementPayloadHash ∧
    verifyMessage lobbySigner.did.did (List.replicate 86 (cp 'A')) FIRST_ANNOUNCEMENT_ROOM (.int 1)
      FIRST_ANNOUNCEMENT_TEXT = .ok true := by
  have htext : FIRST_ANNOUNCEMENT_TEXT = _ := py_append_ofList (py_append_ofList (py_append_ofList
    (py_append_ofList (py_append_ofList (py_ofList _) _) _) _) _) _
  rw [funext hexdigest_eq_packed, htext, show announcementPayloadHash = _ from py_ofList _]
  decide +kernel

/-- The proof is the one for the first nonce. -/
theorem announcement_proof :
    Built lobbySigner FIRST_ANNOUNCEMENT_ROOM FIRST_ANNOUNCEMENT_TEXT 1 announcementProof := by
  obtain ⟨hsweep, hsha, -⟩ := announcement_text
  obtain ⟨hpayload, hverify⟩ := announcement_signed
  obtain ⟨payload, hpayload, hhash⟩ := map_eq_ok.mp hpayload
  refine ⟨Int.le_refl 1, rfl, rfl, rfl, rfl, hsweep.symm, hsha, by rw [hsweep]; exact hsha,
    ⟨payload, by rw [hsweep]; exact hpayload, hhash.symm⟩, ?_, rfl, rfl, rfl, by rw [hsweep]; exact hverify⟩
  obtain ⟨n, hn, hlt, hroom, hbuilt⟩ := messagePayload_eq_ok.mp hpayload
  obtain rfl : n = 1 := (Int.ofNat.inj (PyInt.int.inj hn)).symm
  obtain ⟨hne, hlen, hutf8⟩ := hbuilt _ rfl
  refine ⟨⟨lobbySigner.did.did, FIRST_ANNOUNCEMENT_ROOM, 1, FIRST_ANNOUNCEMENT_TEXT,
    List.replicate 86 (cp 'A'), payload⟩, ?_, rfl⟩
  refine signTechnocoreMessage_eq_ok.mpr ⟨1, payload, List.replicate 86 (cp 'A'), rfl, hlt, hroom, ?_⟩
  rw [hsweep]
  exact ⟨hne, hlen, hutf8, rfl, rfl⟩

/-- The ledger has nothing against its texts. -/
theorem announcement_accepted : ProofAccepted announcementProof ∧
    (∀ kv ∈ commonMeta announcementProof, FlatItem kv) ∧ PlainText announcementProof.canonicalText ∧
      TextAccepted announcementProof.canonicalTextHash :=
  announcement_proof.accepted (textAccepted_of_unmarked (by decide +kernel) (by decide +kernel)
    (by decide +kernel)) rfl

/-- It is what the signer builds. -/
theorem announcement_built (w : World) : ∃ w', w'.db = w.db ∧
    Proc.Exec (answers calmMode) (buildLocalAnnouncementProof lobbySigner (.int 1) FIRST_ANNOUNCEMENT_ROOM
      FIRST_ANNOUNCEMENT_TEXT) w (.ok announcementProof) w' := by
  obtain ⟨hsweep, hsha, -⟩ := announcement_text
  obtain ⟨hpayload, hverify⟩ := announcement_signed
  obtain ⟨payload, hpayload, hhash⟩ := map_eq_ok.mp hpayload
  obtain ⟨signed, hsigned, hsignature⟩ := announcement_proof.signed_eq
  obtain ⟨m, payload', signature, hm, -, -, -, -, -, hsign, hfields⟩ := signTechnocoreMessage_eq_ok.mp hsigned
  have hlift : ∀ {α : Type} {r : Except Exc α} {x : α} (w : World), r = .ok x →
      Proc.Exec (answers calmMode) (Proc.lift r : Prog α) w (.ok x) w := by
    rintro α _ x w rfl
    exact Proc.exec_lift
  refine ⟨{ w with trace := w.trace ++ [.signed lobbySigner.did.did FIRST_ANNOUNCEMENT_ROOM (.int 1)] }, rfl, ?_⟩
  unfold buildLocalAnnouncementProof
  refine (hlift w (show validateNonce (.int 1) = .ok 1 from rfl)).bind ?_
  dsimp only
  rw [if_neg (by decide), hsweep]
  refine Proc.Exec.bind (Proc.exec_call ⟨rfl, hsigned.symm⟩) ?_
  cases hm
  cases hsign
  subst hfields
  dsimp only
  rw [if_neg (not_not.mpr hsweep)]
  refine (hlift _ hpayload).bind ((hlift _ hverify).bind ((hlift _ hsha).bind ((hlift _ hsha).bind ?_)))
  rw [hhash]
  exact .refl

/-- The hashes of the four rows. -/
def announcementHash : Nat → PyStr
  | 0 => py "5616d8439797530fc3826bccc16ce96ff491db5df8ff4f2c010587b96fe7488c"
  | 1 => py "408735bda154d2555476949ce2f1654e8ce0a44580cf2e2afbf7f5ed13786400"
  | 2 => py "877cbf027f2b4ea7e5a2912b1a8afb8a3aea6fcdb29c3e3475af7cf010abc9e7"
  | _ => py "a87b255d57dd210cc5ea3d89f7c740eb805d66a698ef647fadfaf60f95064b1c"

def announcementHashes : List PyStr := (List.range 4).map announcementHash

/-- A call of `append` at the sample time, with the next id. -/
def sampleCall (a : Activity) (bits : Nat) : AppendCall := ⟨a, bits, ⟨2026, 1, 1, 0, 0, 0⟩⟩

def sampleTime : PyStr := UtcTime.isoformat ⟨2026, 1, 1, 0, 0, 0⟩

/-- The record that `sampleCall` appends. -/
def sampleRecord (bits : Nat) (prev hash : PyStr) : LedgerRecord :=
  ⟨uuid4 bits, bits, .str prev, hash, sampleTime⟩

/-- Each row has the hash that is expected of it. -/
theorem announcement_hashes :
    callHash (sampleCall (prepareActivity announcementProof announcementTaskId sampleTime) 0) 0
      GENESIS_PREV_HASH = .ok (announcementHash 0) ∧
    callHash (sampleCall (signedActivity announcementProof announcementTaskId sampleTime (uuid4 0)) 1) 1
      (announcementHash 0) = .ok (announcementHash 1) ∧
    callHash (sampleCall (verifiedActivity announcementProof announcementTaskId sampleTime (uuid4 1)) 2) 2
      (announcementHash 1) = .ok (announcementHash 2) ∧
    callHash (sampleCall (blockedActivity announcementProof announcementTaskId sampleTime (uuid4 2)) 3) 3
      (announcementHash 2) = .ok (announcementHash 3) := by
  have htext : FIRST_ANNOUNCEMENT_TEXT = _ := py_append_ofList (py_append_ofList (py_append_ofList
    (py_append_ofList (py_append_ofList (py_ofList _) _) _) _) _) _
  unfold callHash announcementProof
  simp only [computeEntryHash_eq_packed]
  rw [htext, show FIRST_ANNOUNCEMENT_SHA256 = _ from py_ofList _,
    show announcementPayloadHash = _ from py_ofList _, show announcementHash 0 = _ from py_ofList _,
    show announcementHash 1 = _ from py_ofList _, show announcementHash 2 = _ from py_ofList _,
    show announcementHash 3 = _ from py_ofList _]
  decide +kernel

/-- One row more. -/
theorem announcement_row {w : World} {hashes : List PyStr} (h : Stands hashes w.db.activities) {a : Activity}
    (happendable : Appendable a w.db) (hplain : a.PlainInts) {prev hash : PyStr}
    (hprev : hashes.getLastD GENESIS_PREV_HASH = prev)
    (hhash : callHash (sampleCall a hashes.length) hashes.length prev = .ok hash) (hnew : hash ∉ hashes)
    (hlen : storable hashes.length = true) (hid : ∀ i < hashes.length, uuid4 i ≠ uuid4 hashes.length) :
    ∃ w', Stands (hashes ++ [hash]) w'.db.activities ∧ Proc.Exec (answers calmMode) (ledgerAppend a) w
      (.ok (sampleRecord hashes.length prev hash)) w' := by
  subst hprev
  obtain ⟨-, row, -, halone, -, hstands⟩ :=
    h.append (sampleCall a hashes.length) happendable rfl hlen hid hhash hnew
  exact ⟨_, hstands hplain, ledgerAppend_exec rfl halone⟩

/-- The records of the four rows. -/
def announcementRecords : AnnouncementProofRecords :=
  ⟨sampleRecord 0 GENESIS_PREV_HASH (announcementHash 0),
   sampleRecord 1 (announcementHash 0) (announcementHash 1),
   sampleRecord 2 (announcementHash 1) (announcementHash 2),
   sampleRecord 3 (announcementHash 2) (announcementHash 3)⟩

/-- The four rows are recorded on an empty ledger. -/
theorem announcement_recorded {w : World} (hw : w.db.activities = []) : ∃ w',
    Stands announcementHashes w'.db.activities ∧ Proc.Exec (answers calmMode)
      (recordLocalAnnouncementProof announcementProof) w (.ok announcementRecords) w' := by
  obtain ⟨hhash₀, hhash₁, hhash₂, hhash₃⟩ := announcement_hashes
  have hchecked : checkedProof announcementProof = .ok true :=
    checkedProof_eq_true.mpr ⟨rfl, announcement_signed.2⟩
  have hplain : PlainInt none ∧ PlainInt (some announcementProof.nonce) :=
    ⟨nofun, fun b hb => PyInt.noConfusion (Option.some.inj hb)⟩
  have hnow : ∀ w, Proc.Exec (answers calmMode) utcNow w (.ok sampleTime) w :=
    fun w => Proc.exec_call ⟨rfl, _, rfl⟩
  have hids : ∀ n < 4, ∀ i < n, uuid4 i ≠ uuid4 n := by decide
  have hnew : ∀ n < 4, announcementHash n ∉ (List.range n).map announcementHash := by
    intro n hn
    interval_cases n <;> simp [List.range_succ, announcementHash, py_inj]
  obtain ⟨haccepted, hmeta, htext, hhash⟩ := announcement_accepted
  have happendable : ∀ {db a}, RowOf announcementProof announcementTaskId db a → Appendable a db :=
    fun ha => appendable_rowOf haccepted hmeta htext hhash ha
  -- one row after the other
  have h₀ : Stands [] w.db.activities := hw ▸ .nil
  obtain ⟨w₁, h₁, hrow₀⟩ := announcement_row h₀ (happendable ⟨⟨2026, 1, 1, 0, 0, 0⟩, Or.inl rfl⟩) hplain rfl
    hhash₀ (hnew 0 (by decide)) rfl (hids 0 (by decide))
  obtain ⟨w₂, h₂, hrow₁⟩ := announcement_row h₁ (happendable ⟨⟨2026, 1, 1, 0, 0, 0⟩,
    Or.inr ⟨0, h₁.row 0 (by decide), Or.inl rfl⟩⟩) hplain rfl hhash₁ (hnew 1 (by decide)) rfl
    (hids 1 (by decide))
  obtain ⟨w₃, h₃, hrow₂⟩ := announcement_row h₂ (happendable ⟨⟨2026, 1, 1, 0, 0, 0⟩,
    Or.inr ⟨1, h₂.row 1 (by decide), Or.inr (Or.inl rfl)⟩⟩) hplain rfl hhash₂ (hnew 2 (by decide)) rfl
    (hids 2 (by decide))
  obtain ⟨w₄, h₄, hrow₃⟩ := announcement_row h₃ (happendable ⟨⟨2026, 1, 1, 0, 0, 0⟩,
    Or.inr ⟨2, h₃.row 2 (by decide), Or.inr (Or.inr rfl)⟩⟩) hplain rfl hhash₃ (hnew 3 (by decide)) rfl
    (hids 3 (by decide))
  refine ⟨w₄, h₄, ?_⟩
  unfold recordLocalAnnouncementProof
  rw [hchecked]
  refine Proc.Exec.bind Proc.exec_lift ?_
  exact (hnow w).bind (hrow₀.bind ((hnow w₁).bind (hrow₁.bind ((hnow w₂).bind (hrow₂.bind
    ((hnow w₃).bind (hrow₃.bind .refl)))))))

/-- The announcement is prepared on an empty database. -/
theorem announcement_prepared {w : World} (hw : w.db = ⟨[], []⟩) : ∃ w',
    Stands announcementHashes w'.db.activities ∧ Proc.Exec (answers calmMode)
      (prepareFirstAnnouncement lobbySigner none FIRST_ANNOUNCEMENT_ROOM FIRST_ANNOUNCEMENT_TEXT) w
      (.ok ⟨announcementProof, announcementRecords⟩) w' := by
  have hcurrent : current lobbySigner.did.did (scopeForRoom FIRST_ANNOUNCEMENT_ROOM) ⟨[], []⟩ = .ok 0 := by
    decide
  have hreserved : ∃ db, db.activities = [] ∧ reserveAlone lobbySigner.did.did
      (scopeForRoom FIRST_ANNOUNCEMENT_ROOM) 0 ⟨[], []⟩ = (.ok 1, db) := by
    refine ⟨_, reserveAlone_activities lobbySigner.did.did (scopeForRoom FIRST_ANNOUNCEMENT_ROOM) 0
      ⟨[], []⟩, Prod.ext ?_ rfl⟩
    decide
  obtain ⟨db, hdb, hreserved⟩ := hreserved
  have hread : Proc.Exec (answers calmMode)
      (noncesCurrent lobbySigner.did.did (scopeForRoom FIRST_ANNOUNCEMENT_ROOM)) w (.ok 0) w :=
    Proc.exec_call ⟨w.db, rfl, by rw [hw]; exact hcurrent.symm, rfl⟩
  have hreserve : Proc.Exec (answers calmMode)
      (noncesReserve lobbySigner.did.did (scopeForRoom FIRST_ANNOUNCEMENT_ROOM) 0) w (.ok 1)
      { w with db := db } :=
    Proc.exec_call ⟨w.db, rfl, Or.inl ⟨by rw [hw, hreserved], by rw [hw, hreserved]⟩⟩
  obtain ⟨w₁, hw₁, hbuilt⟩ := announcement_built { w with db := db }
  obtain ⟨w₂, hstands, hrecorded⟩ := announcement_recorded (w := w₁) (by rw [hw₁]; exact hdb)
  exact ⟨w₂, hstands, Proc.Exec.bind (hread.bind hreserve) (hbuilt.bind (hrecorded.bind .refl))⟩

/-- The publication of the announcement, up to the send. -/
theorem announcement_sends {w : World} (hw : w.db = ⟨[], []⟩) : ∃ payload object w₁ w₂ s,
    Prepared lobbySigner publicClient FIRST_ANNOUNCEMENT_ROOM FIRST_ANNOUNCEMENT_SHA256 true announcementProof
      payload object ∧
    Quiet w w₁ ∧ Added w₁ w₂ (fourRows announcementProof announcementTaskId s) ∧
    s.records = announcementRecords ∧ Stands announcementHashes w₂.db.activities ∧
    ∀ r w', Proc.Exec (answers calmMode) (sendPrepared publicClient ⟨announcementProof, announcementRecords⟩
        (proofWrite announcementProof payload) w₂.gates.length) { w₂ with gates := w₂.gates ++ [object] } r w' →
      Proc.Exec (answers calmMode) (publishFirstAnnouncementOnce lobbySigner publicClient
        FIRST_ANNOUNCEMENT_ROOM FIRST_ANNOUNCEMENT_SHA256 true) w r w' := by
  obtain ⟨hpayload, hverify⟩ := announcement_signed
  obtain ⟨payload, hpayload, hhash⟩ := map_eq_ok.mp hpayload
  obtain ⟨w₂, hstands, hprepared⟩ := announcement_prepared hw
  -- what the run has done
  let Q : Except Exc AnnouncementPreparation → World → Prop := fun r w' => ∀ p, r = .ok p →
    ∃ w₁ s, Quiet w w₁ ∧ Added w₁ w' (fourRows p.proof announcementTaskId s) ∧ s.records = p.records
  have hsafe : Proc.Safe (answers calmMode) (fun _ => True) Q
      (prepareFirstAnnouncement lobbySigner none FIRST_ANNOUNCEMENT_ROOM FIRST_ANNOUNCEMENT_TEXT) w := by
    refine safe_prepareFirstAnnouncement calmMode_grows
      (fun _ _ => ⟨trivial, fun _ _ p hp => by cases hp⟩)
      (fun _ _ _ _ _ _ _ _ _ _ => ⟨trivial, fun _ _ _ p hp => by cases hp⟩)
      fun w₁ w' _ proof s hquiet _ _ hadded _ _ p hp => ?_
    cases hp
    exact ⟨w₁, s, hquiet, hadded, rfl⟩
  obtain ⟨w₁, s, hquiet, hadded, hrecords⟩ := (hsafe.exec hprepared).2 _ rfl
  dsimp only at hadded hrecords
  have hchecked : checkedProof announcementProof = .ok true := checkedProof_eq_true.mpr ⟨rfl, hverify⟩
  have hverifies : (proofWrite announcementProof payload).verifies = .ok true := hverify
  obtain ⟨object, hobject⟩ : ∃ object, OneTimePublicWriteGate.create publicClient.host announcementProof.room
      FIRST_ANNOUNCEMENT_SHA256 announcementProof.nonce true = .ok object := by
    have hok : (OneTimePublicWriteGate.create publicClient.host announcementProof.room
        FIRST_ANNOUNCEMENT_SHA256 announcementProof.nonce true).isOk = true := by decide +kernel
    cases h : OneTimePublicWriteGate.create publicClient.host announcementProof.room
        FIRST_ANNOUNCEMENT_SHA256 announcementProof.nonce true with
    | ok object => exact ⟨object, rfl⟩
    | error e =>
      rw [h] at hok
      cases hok
  have hlift : ∀ {α : Type} {r : Except Exc α} {x : α} (w : World), r = .ok x →
      Proc.Exec (answers calmMode) (Proc.lift r : Prog α) w (.ok x) w := by
    rintro α _ x w rfl
    exact Proc.exec_lift
  refine ⟨payload, object, w₁, w₂, s, ⟨rfl, rfl, rfl, ⟨1, announcement_proof⟩, rfl, hpayload, hhash.symm,
    hverifies, hobject⟩, hquiet, hadded, hrecords, hstands, fun r w' hsend => ?_⟩
  unfold publishFirstAnnouncementOnce
  rw [if_neg (by decide), if_neg (not_not.mpr rfl), if_neg (not_not.mpr rfl)]
  refine hprepared.bind ?_
  dsimp only
  rw [if_neg (not_not.mpr (show announcementProof.canonicalTextHash = FIRST_ANNOUNCEMENT_SHA256 from rfl))]
  refine (hlift w₂ hchecked).bind ((hlift w₂ hpayload).bind ((hlift w₂ hverifies).bind
    ((hlift w₂ hobject).bind ?_)))
  exact Proc.Exec.bind (Proc.exec_call ⟨rfl, rfl⟩) hsend

/-- **A publication that gets no token**: the send has been called, and there is no result row. -/
theorem announcement_limited : ∃ events w' e, Proc.Exec (answers calmMode)
      (publishFirstAnnouncementOnce lobbySigner publicClient FIRST_ANNOUNCEMENT_ROOM
        FIRST_ANNOUNCEMENT_SHA256 true) limitedWorld (.error e) w' ∧
    w'.trace = limitedWorld.trace ++ events ∧ w'.gates.length = limitedWorld.gates.length + 1 ∧
    ¬ Accounted events w'.db (.error e : Except Exc AnnouncementPublishResult) := by
  obtain ⟨payload, object, w₁, w₂, s, hprepared, hquiet, hfour, hrecords, -, hpublish⟩ :=
    announcement_sends (w := limitedWorld) rfl
  -- the bucket is still empty
  obtain ⟨hwrites, hclock, -⟩ := hquiet.surroundings hfour
  obtain ⟨t, ht⟩ := limitedWorld_refuses
  have hguard : publicClient.guardResult (proofWrite announcementProof payload) (some w₂.gates.length)
      { w₂ with gates := w₂.gates ++ [object] } = some (.ok ()) :=
    hprepared.guard_public (by decide) rfl
  have hexit : TechnocoreClient.SendExit publicClient (proofWrite announcementProof payload)
      (some w₂.gates.length) { w₂ with gates := w₂.gates ++ [object] } (.error ⟨.rateLimitExceeded, []⟩) [] := by
    refine .limited (t := t) hprepared.verifies hguard (Prod.ext ?_ rfl)
    dsimp only
    rw [hwrites, hclock]
    exact ht
  obtain ⟨w', hsend, hdb, hgates, htrace⟩ := TechnocoreClient.send_exec_db (M := calmMode) hexit
  have hraised : Proc.Exec (answers calmMode) (sendPrepared publicClient
      ⟨announcementProof, announcementRecords⟩ (proofWrite announcementProof payload) w₂.gates.length)
      { w₂ with gates := w₂.gates ++ [object] } (.error ⟨.rateLimitExceeded, []⟩) w' :=
    Proc.Exec.bind_error (hsend.handle .refl)
  obtain ⟨signed, hsigned, hsignedTrace⟩ := hquiet.trace
  have hsent : Sent announcementProof s [] limitedWorld w' := by
    refine ⟨signed, [], fun e he => (hsigned e he).1, List.forall_mem_nil _, ?_⟩
    rw [htrace]
    show w₂.trace ++ _ = _
    rw [hfour.trace, hsignedTrace]
    simp only [List.map_nil, List.append_nil, List.append_assoc]
  obtain ⟨_, _, -, -, hevents⟩ := hsent.trace
  refine ⟨_, w', _, hpublish _ _ hraised, hevents, ?_, ?_⟩
  · rw [hgates, List.length_append, List.length_singleton, hfour.gates, hquiet.gates]
  · rintro ⟨_, result, -, hresult, -⟩
    rw [hsent.rowsOfType hevents, List.append_nil, filter_fourRows.2] at hresult
    exact absurd hresult (List.cons_ne_nil _ _).symm

end Refused
end FlopOffice.Technocore
