/-
# FlopOffice.Technocore.Journal — recorded before sent, wherever the publication is cut.

`Journal` is what a publication that started in one world can have made of another: its rows are a
prefix of one linked sequence of five, and its request, if there is one, stands after four of them and
carries what they carry. It holds at every point of the publication, whatever fails and whatever other
processes append meanwhile; and every exit leaves the gate closed.
-/
import FlopOffice.Technocore.GateRuns
import FlopOffice.Technocore.LedgerIntegrity

namespace FlopOffice.Technocore

open FlopOffice.Identity FlopOffice.Lib FlopOffice.Proof FlopOffice.Python FlopOffice.Storage

/-! ## The sequence of rows -/

/-- The four-row sequence, and the row of the result. -/
def rowTypes : List PyStr :=
  [py "technocore_message_prepare_intent", py "technocore_message_signed_local",
   py "technocore_message_verified_local", py "technocore_message_publish_blocked",
   py "technocore_message_publish_result"]

/-- The rows are a prefix of the sequence; each refers to the one before it, and all are about one
message. -/
structure InSequence (did room : PyStr) (nonce : PyInt) (hash : PyStr) (rows : List Appended) :
    Prop where
  types : rows.map (fun r => r.1.activityType) <+: rowTypes
  linked : rows.IsChain fun r r' => r'.1.refActivityId = some r.2.activityId
  first : ∀ r ∈ rows.head?, r.1.refActivityId = none
  same : ∀ r ∈ rows, r.1.agentDid = did ∧ r.1.tcRoom = some room ∧ r.1.tcNonce = some nonce ∧
    r.1.signedPayloadHash = some hash

theorem inSequence_nil {did room hash : PyStr} {nonce : PyInt} : InSequence did room nonce hash [] := by
  refine ⟨List.nil_prefix, List.isChain_nil, ?_, fun r hr => absurd hr List.not_mem_nil⟩
  intro r hr
  cases hr

theorem InSequence.take {did room hash : PyStr} {nonce : PyInt} {rows : List Appended}
    (h : InSequence did room nonce hash rows) (n : Nat) : InSequence did room nonce hash (rows.take n) := by
  refine ⟨?_, ?_, ?_, fun r hr => h.same r (List.mem_of_mem_take hr)⟩
  · rw [List.map_take]
    exact (List.take_prefix _ _).trans h.types
  · have hsplit := h.linked
    rw [← List.take_append_drop n rows] at hsplit
    exact hsplit.left_of_append
  · intro r hr
    cases n with
    | zero => cases hr
    | succ n =>
      rw [List.head?_take, if_neg (Nat.succ_ne_zero n)] at hr
      exact h.first r hr

/-- A row of the result, whatever the result. -/
def IsResultOf (proof : AnnouncementProof) (s : ProofStamps) (r : Appended) : Prop :=
  ∃ delivered status hash seq error t,
    r.1 = resultActivity ⟨proof, s.records⟩ delivered status hash seq error t

theorem isResultOf_singleton {proof : AnnouncementProof} {s : ProofStamps} {delivered : Bool}
    {status : PyStr} {hash : Option PyStr} {seq : Option PyInt} {error : Option PyStr} {t : PyStr}
    {record : LedgerRecord} :
    ∀ r ∈ ([(resultActivity ⟨proof, s.records⟩ delivered status hash seq error t, record)] : List Appended),
      IsResultOf proof s r := by
  intro r hr
  rw [List.mem_singleton.mp hr]
  exact ⟨delivered, status, hash, seq, error, t, rfl⟩

theorem inSequence_full (proof : AnnouncementProof) (taskId : PyStr) (s : ProofStamps)
    (results : List Appended) (hlen : results.length ≤ 1) (h : ∀ r ∈ results, IsResultOf proof s r) :
    InSequence proof.did proof.room proof.nonce proof.payloadHash (fourRows proof taskId s ++ results) := by
  have hfour : InSequence proof.did proof.room proof.nonce proof.payloadHash (fourRows proof taskId s) := by
    refine ⟨⟨[py "technocore_message_publish_result"], rfl⟩, ?_, ?_, ?_⟩
    · simp [fourRows, signedActivity, verifiedActivity, blockedActivity, proofActivity]
    · rintro _ ⟨⟩
      rfl
    · simp [fourRows, prepareActivity, signedActivity, verifiedActivity, blockedActivity, proofActivity]
  rcases results with _ | ⟨r, _ | ⟨r', rest⟩⟩
  · rwa [List.append_nil]
  · obtain ⟨delivered, status, hash, seq, error, t, hr⟩ := h r List.mem_cons_self
    refine ⟨?_, ?_, hfour.first, ?_⟩
    · rw [List.map_append, List.map_cons, hr]
      exact List.prefix_refl _
    · refine hfour.linked.append (List.isChain_singleton r) ?_
      intro x hx y hy
      obtain rfl : r = y := by simpa using hy
      obtain rfl : (blockedActivity proof taskId s.t₄ s.records.verifiedLocal.activityId,
        s.records.publishBlocked) = x := by simpa [fourRows] using hx
      rw [hr]
      rfl
    · intro x hx
      rcases List.mem_append.mp hx with hx | hx
      · exact hfour.same x hx
      · rw [List.mem_singleton.mp hx, hr]
        exact ⟨rfl, rfl, rfl, rfl⟩
  · simp at hlen

/-! ## The journal -/

/-- The request of a publication, and everything that had to hold for it. -/
structure Request (client : TechnocoreClient) (room sha : PyStr) (confirm : Bool) (did roomOf : PyStr)
    (nonce : PyInt) (hash : PyStr) (rows : List Appended) (url : PyStr) : Prop where
  confirmed : confirm = true
  room_eq : room = FIRST_ANNOUNCEMENT_ROOM
  sha_eq : sha = FIRST_ANNOUNCEMENT_SHA256
  recorded : 4 ≤ rows.length
  write : ∃ (write : SignedWrite) (path : PyStr), write.path = .ok path ∧ url = client.baseUrl ++ path ∧
    write.did = did ∧ write.room = roomOf ∧ write.nonce = nonce ∧
    messagePayload write.room write.nonce write.sweptText DEFAULT_SWEEP true = .ok write.payload ∧
    hexdigest write.payload = hash

/-- What a publication that started in `w` has made of it: first it signed, then it committed up to four
rows, then it sent, then it committed the rest. -/
structure Journal (client : TechnocoreClient) (room sha : PyStr) (confirm : Bool) (w w' : World)
    (rows : List Appended) (urls : List PyStr) : Prop where
  trace : ∃ signed : List Event, (∀ e ∈ signed, e.appended? = none ∧ e.sent? = none) ∧
    w'.trace = w.trace ++ signed ++ (rows.take 4).map Appended.event ++ urls.map .sent ++
      (rows.drop 4).map Appended.event
  committed : ∀ r ∈ rows, r.CommittedIn w'.db
  once : urls.length ≤ 1
  sequence : ∃ did roomOf nonce hash, InSequence did roomOf nonce hash rows ∧
    ∀ url ∈ urls, Request client room sha confirm did roomOf nonce hash rows url

/-- Every gate that is not one of `w` is closed. -/
def GatesClosed (w w' : World) : Prop :=
  ∀ (i : Nat) (gate : OneTimePublicWriteGate), w.gates.length ≤ i → w'.gates[i]? = some gate →
    gate.closed = true

theorem gatesClosed_of_eq {w w' : World} (h : w'.gates = w.gates) : GatesClosed w w' := by
  intro i gate hi hgate
  rw [h, List.getElem?_eq_none hi] at hgate
  cases hgate

section Journal

variable [PyRuntime] [PyBuiltins] [Ed25519] {M : Mode} {client : TechnocoreClient} {room sha : PyStr}
  {confirm : Bool} {w w₁ w' : World}

omit [PyRuntime] [PyBuiltins] [Ed25519] in
theorem journal_of_quiet (h : Quiet w w') : Journal client room sha confirm w w' [] [] := by
  obtain ⟨signed, hsigned, htrace⟩ := h.trace
  refine ⟨⟨signed, hsigned, ?_⟩, fun r hr => absurd hr List.not_mem_nil, Nat.zero_le 1, ?_⟩
  · rw [htrace]
    simp
  · exact ⟨[], [], .int 0, [], inSequence_nil, fun url hurl => absurd hurl List.not_mem_nil⟩

omit [PyBuiltins] [Ed25519] in
/-- Up to four rows. -/
theorem journal_of_rows {proof : AnnouncementProof} {taskId : PyStr} {s : ProofStamps} {n : Nat}
    (h : Quiet w w₁) (ha : Added w₁ w' ((fourRows proof taskId s).take n)) :
    Journal client room sha confirm w w' ((fourRows proof taskId s).take n) [] := by
  obtain ⟨signed, hsigned, htrace⟩ := h.trace
  have hlen : ((fourRows proof taskId s).take n).length ≤ 4 := (List.length_take_le' _ _)
  refine ⟨⟨signed, hsigned, ?_⟩, ha.committed, Nat.zero_le 1, ?_⟩
  · rw [ha.trace, htrace, List.take_of_length_le hlen, List.drop_of_length_le hlen]
    simp
  · have hfull := inSequence_full proof taskId s [] (Nat.zero_le 1) fun r hr =>
      absurd hr List.not_mem_nil
    rw [List.append_nil] at hfull
    exact ⟨_, _, _, _, hfull.take n, fun url hurl => absurd hurl List.not_mem_nil⟩

/-- Four rows, a request or none, and then a row of the result or none. -/
theorem journal_of_send {capability : CapabilitySigner} {proof : AnnouncementProof} {taskId : PyStr}
    {s : ProofStamps} {payload : Bytes} {object : OneTimePublicWriteGate} {w₂ w₃ : World}
    {urls : List PyStr} {results : List Appended} (h : Quiet w w₁)
    (ha : Added w₁ w₂ (fourRows proof taskId s))
    (hp : Prepared capability client room sha confirm proof payload object)
    (hdb : w₃.db = w₂.db) (htrace₃ : w₃.trace = w₂.trace ++ urls.map .sent) (honce : urls.length ≤ 1)
    (hurls : ∀ url ∈ urls, ∃ path, (proofWrite proof payload).path = .ok path ∧
      url = client.baseUrl ++ path)
    (hr : Added w₃ w' results) (hlen : results.length ≤ 1)
    (hresults : ∀ r ∈ results, IsResultOf proof s r) :
    Journal client room sha confirm w w' (fourRows proof taskId s ++ results) urls := by
  obtain ⟨signed, hsigned, htrace⟩ := h.trace
  refine ⟨⟨signed, hsigned, ?_⟩, ?_, honce, proof.did, proof.room, proof.nonce, proof.payloadHash,
    inSequence_full proof taskId s results hlen hresults, ?_⟩
  · have htake : (fourRows proof taskId s ++ results).take 4 = fourRows proof taskId s := rfl
    have hdrop : (fourRows proof taskId s ++ results).drop 4 = results := rfl
    rw [hr.trace, htrace₃, ha.trace, htrace, htake, hdrop]
  · intro r hmem
    rcases List.mem_append.mp hmem with hmem | hmem
    · refine (ha.committed r hmem).mono ?_
      rw [← hdb]
      exact hr.grown
    · exact hr.committed r hmem
  · intro url hurl
    obtain ⟨path, hpath, rfl⟩ := hurls url hurl
    exact ⟨hp.confirmed, hp.room_eq, hp.sha_eq, by simp [fourRows],
      ⟨proofWrite proof payload, path, hpath, rfl, rfl, rfl, rfl, hp.payload_eq, hp.payloadHash_eq.symm⟩⟩

/-- **The publication**: at every point there is a journal of it, and at every exit its gate is closed. -/
theorem publish_safe {capability : CapabilitySigner} (hM : M.Grows) :
    Proc.Safe (answers M) (fun w' => ∃ rows urls, Journal client room sha confirm w w' rows urls)
      (fun _ w' => GatesClosed w w')
      (publishFirstAnnouncementOnce capability client room sha confirm) w := by
  refine safe_publishFirstAnnouncementOnce hM ?_ ?_ ?_
  · intro w' h
    exact ⟨⟨_, _, journal_of_quiet h⟩, fun _ _ => gatesClosed_of_eq h.gates⟩
  · intro w₁ w' _ proof s n h _ ha
    exact ⟨⟨_, _, journal_of_rows h ha⟩, fun _ _ => gatesClosed_of_eq (ha.gates.trans h.gates)⟩
  intro w₁ w₂ proof s payload object h ha hp _ w₃
  have hgates : w₂.gates = w.gates := ha.gates.trans h.gates
  -- the journal of every world that the send, and what is recorded after it, can lead to
  have hjournal : ∀ {urls : List PyStr} {w₄ w' : World} {results : List Appended}, w₄.db = w₃.db →
      w₄.trace = w₃.trace ++ urls.map .sent → urls.length ≤ 1 →
      (∀ url ∈ urls, ∃ path, (proofWrite proof payload).path = .ok path ∧
        url = client.baseUrl ++ path) →
      Added w₄ w' results → results.length ≤ 1 → (∀ r ∈ results, IsResultOf proof s r) →
      ∃ rows urls, Journal client room sha confirm w w' rows urls := by
    intro urls w₄ w' results hdb htrace honce hurls hr hlen hresults
    exact ⟨_, _, journal_of_send h ha hp hdb htrace honce hurls hr hlen hresults⟩
  have hexit : ∀ {r urls}, TechnocoreClient.SendExit client (proofWrite proof payload)
      (some w₂.gates.length) w₃ r urls → urls.length ≤ 1 ∧
        ∀ url ∈ urls, ∃ path, (proofWrite proof payload).path = .ok path ∧
          url = client.baseUrl ++ path := by
    intro r urls hexit
    exact ⟨hexit.urls_length, fun url hurl => (hexit.of_mem hurl).2⟩
  -- after the send nothing touches the gates
  have hclosed : ∀ {urls : List PyStr} {w₄ w' : World} {results : List Appended},
      TechnocoreClient.SendEnd (some w₂.gates.length) urls w₃ w₄ → Added w₄ w' results →
      GatesClosed w w' := by
    intro urls w₄ w' results hend hr i gate hi hgate
    rw [hr.gates] at hgate
    refine hend.closed i gate ?_ hgate
    have hlt := (List.getElem?_eq_some_iff.mp hgate).1
    rw [hend.gates.length, show w₃.gates = w₂.gates ++ [object] from rfl, List.length_append,
      List.length_singleton] at hlt
    rw [← hgates] at hi
    exact congrArg some (by omega)
  have hresult : ∀ {urls : List PyStr} {r w₄ w' delivered status hash seq error t} {record : LedgerRecord},
      TechnocoreClient.SendExit client (proofWrite proof payload) (some w₂.gates.length) w₃ r urls →
      TechnocoreClient.SendEnd (some w₂.gates.length) urls w₃ w₄ →
      Added w₄ w' [(resultActivity ⟨proof, s.records⟩ delivered status hash seq error t, record)] →
      (∃ rows urls, Journal client room sha confirm w w' rows urls) ∧ GatesClosed w w' := by
    intro urls r w₄ w' delivered status hash seq error t record hx hend hr
    exact ⟨hjournal hend.db hend.trace (hexit hx).1 (hexit hx).2 hr (Nat.le_refl 1) isResultOf_singleton,
      hclosed hend hr⟩
  have hnothing : ∀ {urls : List PyStr} {r w₄} (w' : World),
      TechnocoreClient.SendExit client (proofWrite proof payload) (some w₂.gates.length) w₃ r urls →
      TechnocoreClient.SendEnd (some w₂.gates.length) urls w₃ w₄ → Added w₄ w' [] →
      (∃ rows urls, Journal client room sha confirm w w' rows urls) ∧ GatesClosed w w' := by
    intro urls r w₄ w' hx hend hr
    exact ⟨hjournal hend.db hend.trace (hexit hx).1 (hexit hx).2 hr (Nat.zero_le 1) fun x hmem =>
      absurd hmem List.not_mem_nil, hclosed hend hr⟩
  refine safe_sendPrepared hM ?_ ?_ ?_ ?_
  · intro w₄ hreach
    rcases hreach.trace with htrace | ⟨r, urls, hx, htrace⟩
    · have hnone : w₄.trace = w₃.trace ++ ([] : List PyStr).map .sent := by
        rw [htrace, List.map_nil, List.append_nil]
      exact hjournal hreach.db hnone (Nat.zero_le 1) (fun url hurl => absurd hurl List.not_mem_nil)
        (.refl w₄) (Nat.zero_le 1) fun x hmem => absurd hmem List.not_mem_nil
    · exact hjournal hreach.db htrace (hexit hx).1 (hexit hx).2 (.refl w₄) (Nat.zero_le 1)
        fun x hmem => absurd hmem List.not_mem_nil
  · intro e urls w₄ hx hend _
    exact (hnothing w₄ hx hend (.refl w₄)).2
  · intro e urls w₄ hx hend _
    refine ⟨fun w' hr => (hnothing w' hx hend hr).1, fun _ _ w' hr _ => (hnothing w' hx hend hr).2, ?_⟩
    intro t record w' hr
    obtain ⟨hI, hQ⟩ := hresult hx hend hr
    exact ⟨hI, fun _ => hQ⟩
  · intro response urls w₄ hx hend
    refine safe_recordResponse hM (fun w' hr => (hnothing w' hx hend hr).1)
      (fun _ _ => (hnothing w₄ hx hend (.refl w₄)).2) ?_ ?_
    · intro hash _ _
      refine ⟨fun _ _ w' hr _ => (hnothing w' hx hend hr).2, fun t record w' hr => ?_⟩
      obtain ⟨hI, hQ⟩ := hresult hx hend hr
      exact ⟨hI, fun _ => hQ⟩
    · intro hash seq _ _ _
      refine ⟨fun _ _ w' hr _ => (hnothing w' hx hend hr).2, fun t record w' hr => ?_⟩
      exact hresult hx hend hr

/-- **Recorded before sent.** Wherever a publication is cut, whatever failed and whatever others appended
meanwhile: the rows it has committed are a prefix of one linked sequence, with at most one row of the
result after the four; it has sent at most one request, after the four rows, about the same message, and
only if confirmation, room and hash matched; and when it has returned or raised, its gate is closed. -/
theorem recorded_before_sent {capability : CapabilitySigner} {p : Prog AnnouncementPublishResult}
    (hM : M.Grows) (h : Proc.Steps (answers M)
      (publishFirstAnnouncementOnce capability client room sha confirm) w p w') :
    (∃ rows urls, Journal client room sha confirm w w' rows urls) ∧
      ∀ r, p = Proc.lift r → GatesClosed w w' := by
  have hsafe : Proc.Safe (answers M) (fun w' => ∃ rows urls,
      Journal client room sha confirm w w' rows urls) (fun _ w' => GatesClosed w w')
      (publishFirstAnnouncementOnce capability client room sha confirm) w := publish_safe hM
  refine ⟨(hsafe.steps h).inv, fun r hr => ?_⟩
  subst hr
  exact (hsafe.exec h).2

end Journal

/-! ## A publication that goes through -/

section Sample

attribute [local instance] asciiRuntime asciiBuiltins acceptAll

theorem recorded_before_sent_published : ∃ published w' rows urls, Proc.Exec (answers calmMode)
      (publishFirstAnnouncementOnce lobbySigner publicClient FIRST_ANNOUNCEMENT_ROOM
        FIRST_ANNOUNCEMENT_SHA256 true) boolWorld (.ok published) w' ∧
    Journal publicClient FIRST_ANNOUNCEMENT_ROOM FIRST_ANNOUNCEMENT_SHA256 true boolWorld w' rows urls ∧
    urls ≠ [] ∧ GatesClosed boolWorld w' := by
  obtain ⟨url, published, w', hexec, -, hsent, -⟩ := bool_published
  obtain ⟨⟨rows, urls, hjournal⟩, hclosed⟩ := recorded_before_sent calmMode_grows hexec
  refine ⟨published, w', rows, urls, hexec, hjournal, ?_, hclosed _ rfl⟩
  -- nothing but the request was sent
  rintro rfl
  obtain ⟨signed, hsigned, htrace⟩ := hjournal.trace
  rw [htrace] at hsent
  simp only [List.mem_append, List.mem_map, List.not_mem_nil, false_and, exists_false, or_false] at hsent
  rcases hsent with ((hsent | hsent) | ⟨r, -, hr⟩) | ⟨r, -, hr⟩
  · exact List.not_mem_nil hsent
  · exact absurd (hsigned _ hsent).2 (Option.some_ne_none url)
  · cases hr
  · cases hr

end Sample

end FlopOffice.Technocore
