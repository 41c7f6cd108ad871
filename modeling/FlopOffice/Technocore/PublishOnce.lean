/-
# FlopOffice.Technocore.PublishOnce — the rules of the preparation and of the publication.

One rule for each function: what can have happened to the world at each point of it, and which facts
are settled at each of its exits. The rules compose to two: `safe_publishFirstAnnouncementOnce`, up to
the request, and `safe_sendPrepared`, from there on.
-/
import FlopOffice.Technocore.ProofRows

namespace FlopOffice.Technocore

open FlopOffice.Identity FlopOffice.Lib FlopOffice.Proof FlopOffice.Python FlopOffice.Storage

/-! ## What a proof is built from -/

/-- A proof as `build_local_announcement_proof` builds it. -/
structure Built [Ed25519] (capability : CapabilitySigner) (room text : PyStr) (nonce : Int)
    (proof : AnnouncementProof) : Prop where
  nonce_pos : 1 ≤ nonce
  did_eq : proof.did = capability.did.did
  room_eq : proof.room = room
  nonce_eq : proof.nonce = .int nonce
  originalText_eq : proof.originalText = text
  canonicalText_eq : proof.canonicalText = singleLineSweep text
  originalTextHash_eq : sha256Text text = .ok proof.originalTextHash
  canonicalTextHash_eq : sha256Text (singleLineSweep text) = .ok proof.canonicalTextHash
  payload_eq : ∃ payload, messagePayload room (.int nonce) (singleLineSweep text) DEFAULT_SWEEP true =
    .ok payload ∧ proof.payloadHash = hexdigest payload
  signed_eq : ∃ signed, signTechnocoreMessage capability room (.int nonce) text = .ok signed ∧
    proof.signature = signed.signature
  signingAlgorithm_eq : proof.signingAlgorithm = py "Ed25519"
  canonicalizationProfile_eq : proof.canonicalizationProfile = CANONICALIZATION_PROFILE
  technocoreStatus_eq : proof.technocoreStatus = NOT_SENT
  verified_eq : verifyMessage proof.did proof.signature room (.int nonce) (singleLineSweep text) =
    .ok proof.verified

/-- There is one such proof. -/
theorem Built.unique [Ed25519] {capability : CapabilitySigner} {room text : PyStr} {nonce : Int}
    {proof proof' : AnnouncementProof} (h : Built capability room text nonce proof)
    (h' : Built capability room text nonce proof') : proof = proof' := by
  obtain ⟨payload, hpayload, hhash⟩ := h.payload_eq
  obtain ⟨payload', hpayload', hhash'⟩ := h'.payload_eq
  rw [hpayload] at hpayload'
  cases hpayload'
  obtain ⟨signed, hsigned, hsignature⟩ := h.signed_eq
  obtain ⟨signed', hsigned', hsignature'⟩ := h'.signed_eq
  rw [hsigned] at hsigned'
  cases hsigned'
  have hdid := h.did_eq.trans h'.did_eq.symm
  have hsame := hsignature.trans hsignature'.symm
  have hverified := h.verified_eq
  rw [hdid, hsame, h'.verified_eq] at hverified
  have horiginal := Except.ok.inj (h.originalTextHash_eq.symm.trans h'.originalTextHash_eq)
  have hcanonical := Except.ok.inj (h.canonicalTextHash_eq.symm.trans h'.canonicalTextHash_eq)
  obtain ⟨_, _, _, _, _, _, _, _, _, _, _, _, _⟩ := proof
  obtain ⟨_, _, _, _, _, _, _, _, _, _, _, _, _⟩ := proof'
  simp only [AnnouncementProof.mk.injEq]
  exact ⟨hdid, h.room_eq.trans h'.room_eq.symm, h.nonce_eq.trans h'.nonce_eq.symm,
    h.originalText_eq.trans h'.originalText_eq.symm, h.canonicalText_eq.trans h'.canonicalText_eq.symm,
    horiginal, hcanonical, hhash.trans hhash'.symm, hsame,
    h.signingAlgorithm_eq.trans h'.signingAlgorithm_eq.symm,
    h.canonicalizationProfile_eq.trans h'.canonicalizationProfile_eq.symm,
    h.technocoreStatus_eq.trans h'.technocoreStatus_eq.symm, (Except.ok.inj hverified).symm⟩

section Preparation

variable [PyRuntime] [PyBuiltins] {M : Mode} {w : World} {I : World → Prop}

omit [PyBuiltins] in
/-- The nonce that is reserved next over a database. -/
def Reserves (did room : PyStr) (db : Database) (n : Int) : Prop :=
  (∃ stored, current did (scopeForRoom room) db = .ok stored) ∧
    (reserveAlone did (scopeForRoom room) 0 db).1 = .ok n

omit [PyBuiltins] in
/-- There is one next nonce. -/
theorem Reserves.unique {did room : PyStr} {db : Database} {n m : Int} (h : Reserves did room db n)
    (h' : Reserves did room db m) : n = m :=
  Except.ok.inj (h.2.symm.trans h'.2)

/-- Reserving a nonce changes at most the database; where nobody else writes, it is the next one. -/
theorem safe_reserveAnnouncementNonce {did room : PyStr} {nonce : Option PyInt}
    {Q : Except Exc Int → World → Prop} (hI : ∀ db, I { w with db := db })
    (hraised : ∀ e db, (M.Alone → M.calm → nonce = none → ∀ n, ¬ Reserves did room w.db n) →
      Q (.error e) { w with db := db })
    (hreserved : ∀ n db, (M.Alone → nonce = none → Reserves did room w.db n) →
      Q (.ok n) { w with db := db }) :
    Proc.Safe (answers M) I Q (reserveAnnouncementNonce did room nonce) w := by
  unfold reserveAnnouncementNonce
  rw [Proc.safe_bind, safe_noncesCurrent]
  refine ⟨hI w.db, fun db hdb => ⟨hI db, ?_⟩⟩
  cases hcurrent : current did (scopeForRoom room) db with
  | error e =>
    refine ⟨hI db, hraised e db fun hA _ _ n hn => ?_⟩
    obtain ⟨⟨stored, hstored⟩, -⟩ := hn
    rw [← hA _ _ hdb, hcurrent] at hstored
    cases hstored
  | ok stored =>
    cases nonce with
    | none =>
      refine safe_noncesReserve (hI db) (fun db' e hdb' hfails => ⟨hI db', hraised e db' ?_⟩)
        fun db' n hdb' hn => ⟨hI _, hreserved n _ fun hA _ => ?_⟩
      · intro hA hcalm _ n hn
        refine hfails hcalm n ?_
        rw [hA _ _ hdb', hA _ _ hdb]
        exact hn.2
      · rw [hA _ _ hdb', hA _ _ hdb] at hn
        rw [hA _ _ hdb] at hcurrent
        exact ⟨⟨stored, hcurrent⟩, hn⟩
    | some nonce =>
      -- an explicit nonce says nothing of the next one
      have hraised' : ∀ e db, Q (.error e) { w with db := db } := fun e db =>
        hraised e db fun _ _ hnone => absurd hnone (Option.some_ne_none nonce)
      have hreserved' : ∀ n db, Q (.ok n) { w with db := db } := fun n db =>
        hreserved n db fun _ hnone => absurd hnone (Option.some_ne_none nonce)
      dsimp only
      rw [Proc.safe_bind, Proc.safe_lift]
      refine ⟨hI db, ?_⟩
      cases validateNonce nonce with
      | error e => exact ⟨hI db, hraised' e db⟩
      | ok chosen =>
        dsimp only
        rw [Proc.safe_ite]
        refine ⟨fun _ => ⟨hI db, hraised' _ db⟩, fun _ => ?_⟩
        rw [Proc.safe_ite]
        refine ⟨fun _ => ⟨hI db, hraised' _ db⟩, fun _ => ?_⟩
        rw [Proc.safe_bind]
        refine safe_noncesReserve (hI db) (fun db' e _ _ => ⟨hI db', hI db', hraised' e db'⟩)
          fun db' n _ _ => ⟨hI _, ?_⟩
        dsimp only
        rw [Proc.safe_ite]
        exact ⟨fun _ => ⟨hI _, hraised' _ _⟩, fun _ => ⟨hI _, hreserved' n _⟩⟩

/-- Building a proof signs at most once, and changes nothing else; it fails only where there is no such
proof. -/
theorem safe_buildLocalAnnouncementProof [Ed25519] {capability : CapabilitySigner} {nonce : PyInt}
    {room text : PyStr} {Q : Except Exc AnnouncementProof → World → Prop} (hI : I w)
    (hraised : ∀ e, (∀ n, nonce = .int n → ∀ proof, ¬ Built capability room text n proof) → Q (.error e) w)
    (hsigned : ∀ n, nonce = .int n →
      let w' := { w with trace := w.trace ++ [.signed capability.did.did room (.int n)] }
      I w' ∧ (∀ e, (∀ proof, ¬ Built capability room text n proof) → Q (.error e) w') ∧
        ∀ proof, Built capability room text n proof → Q (.ok proof) w') :
    Proc.Safe (answers M) I Q (buildLocalAnnouncementProof capability nonce room text) w := by
  unfold buildLocalAnnouncementProof
  rw [Proc.safe_bind, Proc.safe_lift]
  refine ⟨hI, ?_⟩
  cases hn : validateNonce nonce with
  | error e =>
    refine ⟨hI, hraised e fun n hnonce proof hb => ?_⟩
    obtain ⟨payload, hpayload, -⟩ := hb.payload_eq
    obtain ⟨k, hk, hlt, -⟩ := messagePayload_eq_ok.mp hpayload
    rw [hnonce, validateNonce_eq_ok.mpr ⟨k, hk, rfl, hlt⟩] at hn
    cases hn
  | ok chosen =>
    obtain ⟨n, rfl, rfl, -⟩ := validateNonce_eq_ok.mp hn
    dsimp only
    rw [Proc.safe_ite]
    refine ⟨fun hsmall => ⟨hI, hraised _ fun n' hn' proof hb => ?_⟩, fun hpos => ?_⟩
    · cases hn'
      exact absurd hb.nonce_pos (Int.not_le.mpr hsmall)
    obtain ⟨hI', hraised', hbuilt⟩ := hsigned n rfl
    rw [Proc.safe_bind, safe_signMessage]
    refine ⟨hI, hI', ?_⟩
    cases hsign : signTechnocoreMessage capability room (.int n) text with
    | error e =>
      refine ⟨hI', hraised' e fun proof hb => ?_⟩
      obtain ⟨signed, hsigned, -⟩ := hb.signed_eq
      rw [hsign] at hsigned
      cases hsigned
    | ok signed =>
      obtain ⟨m, payload, signature, hm, -, -, -, -, -, -, hsigned⟩ :=
        signTechnocoreMessage_eq_ok.mp hsign
      cases hm
      -- a proof that could be built carries this signature
      have hsame : ∀ {proof}, Built capability room text n proof →
          proof.did = signed.did ∧ proof.signature = signed.signature := by
        intro proof hb
        obtain ⟨signed', hsigned', hsignature⟩ := hb.signed_eq
        rw [hsign] at hsigned'
        cases hsigned'
        exact ⟨by rw [hb.did_eq, hsigned], hsignature⟩
      dsimp only
      rw [Proc.safe_ite]
      refine ⟨fun hswept => absurd (by rw [hsigned]) hswept, fun _ => ?_⟩
      rw [Proc.safe_bind, Proc.safe_lift]
      refine ⟨hI', ?_⟩
      cases hpayload : messagePayload room (.int n) (singleLineSweep text) DEFAULT_SWEEP true with
      | error e =>
        refine ⟨hI', hraised' e fun proof hb => ?_⟩
        obtain ⟨payload', hpayload', -⟩ := hb.payload_eq
        rw [hpayload] at hpayload'
        cases hpayload'
      | ok payload' =>
        dsimp only
        rw [Proc.safe_bind, Proc.safe_lift]
        refine ⟨hI', ?_⟩
        cases hverify : verifyMessage signed.did signed.signature room (.int n)
            (singleLineSweep text) with
        | error e =>
          refine ⟨hI', hraised' e fun proof hb => ?_⟩
          obtain ⟨hdid, hsignature⟩ := hsame hb
          have hverified := hb.verified_eq
          rw [hdid, hsignature, hverify] at hverified
          cases hverified
        | ok verified =>
          dsimp only
          rw [Proc.safe_bind, Proc.safe_lift]
          refine ⟨hI', ?_⟩
          cases horiginal : sha256Text text with
          | error e =>
            refine ⟨hI', hraised' e fun proof hb => ?_⟩
            have hhash := hb.originalTextHash_eq
            rw [horiginal] at hhash
            cases hhash
          | ok originalTextHash =>
            dsimp only
            rw [Proc.safe_bind, Proc.safe_lift]
            refine ⟨hI', ?_⟩
            cases hcanonical : sha256Text (singleLineSweep text) with
            | error e =>
              refine ⟨hI', hraised' e fun proof hb => ?_⟩
              have hhash := hb.canonicalTextHash_eq
              rw [hcanonical] at hhash
              cases hhash
            | ok canonicalTextHash =>
              refine ⟨hI', hbuilt _ ?_⟩
              subst hsigned
              exact ⟨Int.not_lt.mp hpos, rfl, rfl, rfl, rfl, rfl, horiginal, hcanonical,
                ⟨payload', hpayload, rfl⟩, ⟨_, hsign, rfl⟩, rfl, rfl, rfl, hverify⟩

/-- From `w` to `w'` nothing was done but to sign, and what others did to the database. -/
structure Quiet (w w' : World) : Prop where
  frame : { w' with db := w.db, trace := w.trace } = w
  trace : ∃ signed : List Event, (∀ e ∈ signed, e.appended? = none ∧ e.sent? = none) ∧
    w'.trace = w.trace ++ signed

omit [PyRuntime] [PyBuiltins] in
theorem Quiet.db (w : World) (db : Database) : Quiet w { w with db := db } :=
  ⟨rfl, [], fun _ he => absurd he List.not_mem_nil, (List.append_nil _).symm⟩

omit [PyRuntime] [PyBuiltins] in
theorem Quiet.gates {w w' : World} (h : Quiet w w') : w'.gates = w.gates := by
  have hgates := congrArg World.gates h.frame
  exact hgates

omit [PyBuiltins] in
/-- Neither that nor adding rows touches what a request meets. -/
theorem Quiet.surroundings {w w₁ w₂ : World} {rows : List Appended} (h : Quiet w w₁)
    (hadded : Added w₁ w₂ rows) : w₂.writes = w.writes ∧ w₂.clock = w.clock ∧ w₂.server = w.server := by
  obtain ⟨-, -, hwrites₁, hclock₁, -, hserver₁, -⟩ := World.mk.inj h.frame
  obtain ⟨-, -, hwrites₂, hclock₂, -, hserver₂, -⟩ := World.mk.inj hadded.frame
  exact ⟨hwrites₂.trans hwrites₁, hclock₂.trans hclock₁, hserver₂.trans hserver₁⟩

/-- **Preparing** reserves, signs, and adds a prefix of the four rows of the proof it has built. Where nobody
else writes, the nonce is the next one, and it stops before the rows only where there is no proof for it. -/
theorem safe_prepareFirstAnnouncement [Ed25519] {capability : CapabilitySigner}
    {nonce : Option PyInt} {room text : PyStr}
    {Q : Except Exc AnnouncementPreparation → World → Prop} (hM : M.Grows)
    (hquiet : ∀ w', Quiet w w' → I w' ∧ ∀ e, (M.Alone → M.calm → nonce = none → ∀ n proof,
      Reserves capability.did.did room w.db n → ¬ Built capability room text n proof) → Q (.error e) w')
    (hrows : ∀ w₁ w' chosen proof s n, Quiet w w₁ → Built capability room text chosen proof →
      (M.Alone → nonce = none → Reserves capability.did.did room w.db chosen) →
      Added w₁ w' ((fourRows proof announcementTaskId s).take n) →
      I w' ∧ ∀ e, (0 < n → checkedProof proof = .ok true) →
        (M.calm → Unrecordable proof announcementTaskId n w'.db) → Q (.error e) w')
    (hprepared : ∀ w₁ w' chosen proof s, Quiet w w₁ → Built capability room text chosen proof →
      (M.Alone → nonce = none → Reserves capability.did.did room w.db chosen) →
      Added w₁ w' (fourRows proof announcementTaskId s) → proof.verified = true →
      verifyAnnouncementProof proof = .ok true → Q (.ok ⟨proof, s.records⟩) w') :
    Proc.Safe (answers M) I Q (prepareFirstAnnouncement capability nonce room text) w := by
  unfold prepareFirstAnnouncement
  rw [Proc.safe_bind]
  refine safe_reserveAnnouncementNonce (fun db => (hquiet _ (.db w db)).1)
    (fun e db hnone => ⟨(hquiet _ (.db w db)).1, (hquiet _ (.db w db)).2 e fun hA hcalm hn n _ hreserves =>
      absurd hreserves (hnone hA hcalm hn n)⟩) fun chosen db hreserves => ?_
  dsimp only
  rw [Proc.safe_bind]
  obtain ⟨hIdb, hraised⟩ := hquiet _ (.db w db)
  -- where nobody else writes, the next nonce is the one that was reserved
  have hunbuilt : (∀ proof, ¬ Built capability room text chosen proof) → M.Alone → M.calm → nonce = none →
      ∀ n proof, Reserves capability.did.did room w.db n → ¬ Built capability room text n proof := by
    intro hno hA _ hn n proof hreserves'
    obtain rfl := (hreserves hA hn).unique hreserves'
    exact hno proof
  refine safe_buildLocalAnnouncementProof hIdb
    (fun e hno => ⟨hIdb, hraised e (hunbuilt (hno chosen rfl))⟩) fun n hn => ?_
  cases hn
  have hsigned : Quiet w { w with
      db := db, trace := w.trace ++ [.signed capability.did.did room (.int chosen)] } := by
    refine ⟨rfl, _, ?_, rfl⟩
    intro e he
    rw [List.mem_singleton.mp he]
    exact ⟨rfl, rfl⟩
  obtain ⟨hI', hraised'⟩ := hquiet _ hsigned
  refine ⟨hI', fun e hno => ⟨hI', hraised' e (hunbuilt hno)⟩, fun proof hbuilt => ?_⟩
  dsimp only
  rw [Proc.safe_bind]
  have hrow := fun w' s n h => hrows _ w' chosen proof s n hsigned hbuilt hreserves h
  refine safe_recordLocalAnnouncementProof hM (fun w' s n h => (hrow w' s n h).1)
    (fun e w' s n h hchecked hno => ⟨(hrow w' s n h).1, (hrow w' s n h).2 e hchecked hno⟩)
    fun w' s h hverified hverify => ?_
  exact ⟨(hrow w' s 4 h).1, hprepared _ w' chosen proof s hsigned hbuilt hreserves h hverified hverify⟩

end Preparation

/-! ## Publication -/

section Publication

variable [PyRuntime] [PyBuiltins] [Ed25519] {M : Mode} {w : World} {I : World → Prop}

/-- Everything that is settled when the request is about to go out. -/
structure Prepared (capability : CapabilitySigner) (client : TechnocoreClient) (room sha : PyStr)
    (confirm : Bool) (proof : AnnouncementProof) (payload : Bytes)
    (object : OneTimePublicWriteGate) : Prop where
  confirmed : confirm = true
  room_eq : room = FIRST_ANNOUNCEMENT_ROOM
  sha_eq : sha = FIRST_ANNOUNCEMENT_SHA256
  built : ∃ chosen, Built capability room FIRST_ANNOUNCEMENT_TEXT chosen proof
  hash_eq : proof.canonicalTextHash = sha
  payload_eq : messagePayload proof.room proof.nonce proof.canonicalText DEFAULT_SWEEP true = .ok payload
  payloadHash_eq : proof.payloadHash = hexdigest payload
  verifies : (proofWrite proof payload).verifies = .ok true
  gate : OneTimePublicWriteGate.create client.host proof.room sha proof.nonce true = .ok object

omit [PyRuntime] in
theorem Prepared.plainText_hash {capability : CapabilitySigner} {client : TechnocoreClient} {room sha : PyStr}
    {confirm : Bool} {proof : AnnouncementProof} {payload : Bytes} {object : OneTimePublicWriteGate}
    (h : Prepared capability client room sha confirm proof payload object) :
    PlainText proof.canonicalTextHash := by
  rw [h.hash_eq, h.sha_eq]
  exact plainText_announcementHash

/-- What the publication needs to come to its first row, over this database: it is confirmed, for the room and
the text of the announcement, and with the next nonce the signer makes a signature that verifies. -/
structure Writes (capability : CapabilitySigner) (room sha : PyStr) (confirm : Bool) (db : Database) :
    Prop where
  confirmed : confirm = true
  room_eq : room = FIRST_ANNOUNCEMENT_ROOM
  sha_eq : sha = FIRST_ANNOUNCEMENT_SHA256
  message : ∃ n signed, Reserves capability.did.did FIRST_ANNOUNCEMENT_ROOM db n ∧
    signTechnocoreMessage capability FIRST_ANNOUNCEMENT_ROOM (.int n) FIRST_ANNOUNCEMENT_TEXT = .ok signed ∧
    verifyMessage signed.did signed.signature FIRST_ANNOUNCEMENT_ROOM (.int n) FIRST_ANNOUNCEMENT_TEXT =
      .ok true

/-- What it needs to come to its send: the host is on the denylist as well, and the ledger takes the
signature. -/
structure Starts (capability : CapabilitySigner) (client : TechnocoreClient) (room sha : PyStr)
    (confirm : Bool) (db : Database) : Prop extends Writes capability room sha confirm db where
  host : PyBuiltins.lower client.host ∈ PUBLIC_HOSTS
  accepted : ∀ n signed, Reserves capability.did.did FIRST_ANNOUNCEMENT_ROOM db n →
    signTechnocoreMessage capability FIRST_ANNOUNCEMENT_ROOM (.int n) FIRST_ANNOUNCEMENT_TEXT = .ok signed →
      TextAccepted signed.signature

section Starts

variable {capability : CapabilitySigner} {client : TechnocoreClient} {room sha : PyStr} {confirm : Bool}
  {db : Database} {n : Int} {proof : AnnouncementProof}

omit [PyBuiltins] [Ed25519] in
/-- A reserved nonce is positive, and fits 64 bits. -/
theorem Reserves.bounds {did : PyStr} (h : Reserves did room db n) : 1 ≤ n ∧ storable n = true := by
  obtain ⟨-, h⟩ := h
  unfold reserveAlone at h
  cases hreserve : reserve did (scopeForRoom room) 0 with
  | error e =>
    rw [hreserve] at h
    cases h
  | ok block =>
    rw [hreserve] at h
    dsimp only at h
    cases hrun : block.run db with
    | error e =>
      rw [hrun] at h
      cases h
    | ok out =>
      rw [hrun] at h
      cases h
      simp only [reserve] at hreserve
      split at hreserve
      · cases hreserve
      split at hreserve
      · cases hreserve
      cases hreserve
      obtain ⟨r, db'⟩ := out
      obtain ⟨rfl, hins⟩ := reserveBlock_run hrun
      refine ⟨Int.le_add_of_nonneg_left (Int.le_max_right _ _), ?_⟩
      simp only [upsertNonce, bind_eq_ok] at hins
      obtain ⟨_, -, _, -, v, hv, -⟩ := hins
      exact bindValue_int.mp ⟨v, hv⟩

omit [PyBuiltins] in
/-- **The proof that is built** where the publication writes. -/
theorem Writes.built (h : Writes capability room sha confirm db) : ∃ n signed proof,
    Reserves capability.did.did FIRST_ANNOUNCEMENT_ROOM db n ∧
    signTechnocoreMessage capability FIRST_ANNOUNCEMENT_ROOM (.int n) FIRST_ANNOUNCEMENT_TEXT = .ok signed ∧
    Built capability FIRST_ANNOUNCEMENT_ROOM FIRST_ANNOUNCEMENT_TEXT n proof ∧ proof.verified = true ∧
    proof.signature = signed.signature := by
  obtain ⟨n, signed, hreserves, hsign, hverify⟩ := h.message
  obtain ⟨hsweep, hsha, -⟩ := announcement_text
  obtain ⟨m, payload, signature, hm, hlt, hroom, hne, hlen, hutf8, -, hsigned⟩ :=
    signTechnocoreMessage_eq_ok.mp hsign
  rw [hsweep] at hne hlen hutf8
  refine ⟨n, signed, ⟨signed.did, FIRST_ANNOUNCEMENT_ROOM, .int n, FIRST_ANNOUNCEMENT_TEXT,
    FIRST_ANNOUNCEMENT_TEXT, FIRST_ANNOUNCEMENT_SHA256, FIRST_ANNOUNCEMENT_SHA256, hexdigest payload, signed.signature,
    py "Ed25519", CANONICALIZATION_PROFILE, NOT_SENT, true⟩, hreserves, hsign, ?_, rfl, rfl⟩
  refine ⟨hreserves.bounds.1, by rw [hsigned], rfl, rfl, rfl, hsweep.symm, hsha, by rw [hsweep]; exact hsha,
    ⟨payload, ?_, rfl⟩, ⟨signed, hsign, rfl⟩, rfl, rfl, rfl, by rw [hsweep]; exact hverify⟩
  refine messagePayload_eq_ok.mpr ⟨m, hm, hlt, hroom, ?_⟩
  intro swept hswept
  rw [if_pos rfl, hsweep] at hswept
  rw [hswept]
  exact ⟨hne, hlen, hutf8⟩

omit [PyRuntime] [PyBuiltins] in
/-- And where a proof was built that verifies, the publication writes. -/
theorem Built.writes (h : Built capability FIRST_ANNOUNCEMENT_ROOM FIRST_ANNOUNCEMENT_TEXT n proof)
    (hverified : proof.verified = true) : ∃ signed,
    signTechnocoreMessage capability FIRST_ANNOUNCEMENT_ROOM (.int n) FIRST_ANNOUNCEMENT_TEXT = .ok signed ∧
    verifyMessage signed.did signed.signature FIRST_ANNOUNCEMENT_ROOM (.int n) FIRST_ANNOUNCEMENT_TEXT =
      .ok true ∧ proof.signature = signed.signature := by
  obtain ⟨signed, hsigned, hsignature⟩ := h.signed_eq
  have hdid : proof.did = signed.did := by
    obtain ⟨m, payload', signature, -, -, -, -, -, -, -, hfields⟩ := signTechnocoreMessage_eq_ok.mp hsigned
    rw [h.did_eq, hfields]
  have hverified' := h.verified_eq
  rw [hverified, announcement_text.1, hdid, hsignature] at hverified'
  exact ⟨signed, hsigned, hverified', hsignature⟩

omit [PyRuntime] [PyBuiltins] in
/-- The hash of the canonical text is the announced one. -/
theorem Built.canonicalTextHash_announced
    (h : Built capability FIRST_ANNOUNCEMENT_ROOM FIRST_ANNOUNCEMENT_TEXT n proof) :
    proof.canonicalTextHash = FIRST_ANNOUNCEMENT_SHA256 := by
  obtain ⟨hsweep, hsha, -⟩ := announcement_text
  have hhash := h.canonicalTextHash_eq
  rw [hsweep, hsha] at hhash
  exact (Except.ok.inj hhash).symm

omit [PyBuiltins] in
/-- The texts of an announcement, with a signature that is accepted. -/
theorem Built.accepted (h : Built capability FIRST_ANNOUNCEMENT_ROOM FIRST_ANNOUNCEMENT_TEXT n proof)
    {signature : PyStr} (hsignature : TextAccepted signature) (hn : storable n = true) :
    ProofAccepted { proof with signature := signature } ∧ (∀ kv ∈ commonMeta proof, FlatItem kv) ∧
      PlainText proof.canonicalText ∧ TextAccepted proof.canonicalTextHash := by
  obtain ⟨hsweep, hsha, hplain⟩ := announcement_text
  obtain ⟨payload, -, hpayload⟩ := h.payload_eq
  have hcanonical := h.canonicalTextHash_announced
  have horiginal : proof.originalTextHash = FIRST_ANNOUNCEMENT_SHA256 :=
    Except.ok.inj (h.originalTextHash_eq.symm.trans hsha)
  obtain ⟨data, -, hdata⟩ := map_eq_ok.mp hsha
  have hdigest : ∃ digest : Bytes, FIRST_ANNOUNCEMENT_SHA256 = hexOf digest := ⟨_, hdata.symm⟩
  refine ⟨⟨?_, ?_, ?_, ?_, hsignature, ?_⟩, ?_, ?_, ?_⟩
  · rw [h.did_eq]
    exact (textAccepted_did capability.did).1
  · rw [h.did_eq]
    exact (textAccepted_did capability.did).2
  · rw [h.room_eq]
    exact textAccepted_of_unmarked (by decide) (by decide) (by decide)
  · rw [hpayload]
    exact textAccepted_hexOf _
  · rw [h.nonce_eq]
    exact hn
  · have hfixed : ∀ s ∈ [CANONICALIZATION_PROFILE, NOT_SENT, AWAITING_APPROVAL, py "Ed25519"], PlainText s := by
      rw [show CANONICALIZATION_PROFILE = _ from py_ofList _]
      decide
    have hkeys : ∀ key ∈ ["canonicalization_profile", "canonical_text_hash", "original_text_hash",
        "payload_hash", "publish_status", "reason", "signing_algorithm"], PlainText (py key) := fun key hkey =>
      metaKeys_plain key (List.mem_of_mem_take (i := 7) hkey)
    intro kv hkv
    simp only [commonMeta, List.mem_cons, List.not_mem_nil, or_false] at hkv
    rcases hkv with rfl | rfl | rfl | rfl | rfl | rfl | rfl
    · exact flatItem_text (hkeys _ (by simp)) (h.canonicalizationProfile_eq ▸ hfixed _ (by simp))
    · exact flatItem_text (hkeys _ (by simp)) (hcanonical ▸ plainText_announcementHash)
    · exact flatItem_text (hkeys _ (by simp)) (horiginal ▸ plainText_announcementHash)
    · exact flatItem_text (hkeys _ (by simp)) (hpayload ▸ plainText_hexOf _)
    · exact flatItem_text (hkeys _ (by simp)) (h.technocoreStatus_eq ▸ hfixed _ (by simp))
    · exact flatItem_text (hkeys _ (by simp)) (hfixed _ (by simp))
    · exact flatItem_text (hkeys _ (by simp)) (h.signingAlgorithm_eq ▸ hfixed _ (by simp))
  · rw [h.canonicalText_eq, hsweep]
    exact hplain
  · obtain ⟨digest, hdigest⟩ := hdigest
    rw [hcanonical, hdigest]
    exact textAccepted_hexOf digest

omit [PyBuiltins] in
/-- **The ledger has nothing against the first row**, whatever the signature. -/
theorem Built.appendable_prepare
    (h : Built capability FIRST_ANNOUNCEMENT_ROOM FIRST_ANNOUNCEMENT_TEXT n proof) (hn : storable n = true)
    (t : UtcTime) : Appendable (prepareActivity proof announcementTaskId t.isoformat) db := by
  have hempty : TextAccepted [] := textAccepted_of_unmarked (by decide) (by decide) (by decide)
  obtain ⟨haccepted, hmeta, htext, hhash⟩ := h.accepted hempty hn
  exact appendable_rowOf haccepted hmeta htext hhash ⟨t, Or.inl rfl⟩

/-- What a publication says that stops after `n` rows: it writes, if a row is there; and where the database
accepts writes, it could not have come to its send, nor to the first row if there is none. -/
structure Stopped (M : Mode) (capability : CapabilitySigner) (client : TechnocoreClient) (room sha : PyStr)
    (confirm : Bool) (n : Nat) (db : Database) : Prop where
  writes : 0 < n → Writes capability room sha confirm db
  not_starts : M.calm → ¬ Starts capability client room sha confirm db
  not_writes : M.calm → n = 0 → ¬ Writes capability room sha confirm db

theorem Stopped.of_not_writes {M : Mode} (h : M.calm → ¬ Writes capability room sha confirm db) :
    Stopped M capability client room sha confirm 0 db where
  writes hn := absurd hn (Nat.lt_irrefl 0)
  not_starts hcalm hs := h hcalm hs.toWrites
  not_writes hcalm _ := h hcalm

section Announced

variable (hbuilt : Built capability FIRST_ANNOUNCEMENT_ROOM FIRST_ANNOUNCEMENT_TEXT n proof)
  (hreserves : Reserves capability.did.did FIRST_ANNOUNCEMENT_ROOM db n)

include hbuilt hreserves

omit [PyBuiltins] in
/-- With a proof for the next nonce that verifies, a publication that is confirmed writes. -/
theorem Built.writes_of_reserves (hverified : proof.verified = true) (hconfirm : confirm = true)
    (hsha : sha = FIRST_ANNOUNCEMENT_SHA256) :
    Writes capability FIRST_ANNOUNCEMENT_ROOM sha confirm db := by
  obtain ⟨signed, hsigned, hverify, -⟩ := hbuilt.writes hverified
  exact ⟨hconfirm, rfl, hsha, n, signed, hreserves, hsigned, hverify⟩

omit [PyBuiltins] in
/-- Where the publication writes, the proof for the next nonce verifies. -/
theorem Built.checked_of_writes (hs : Writes capability FIRST_ANNOUNCEMENT_ROOM sha confirm db) :
    checkedProof proof = .ok true := by
  obtain ⟨m, signed, proof', hreserves', -, hbuilt', hverified, -⟩ := hs.built
  obtain rfl := hreserves.unique hreserves'
  obtain rfl := hbuilt.unique hbuilt'
  refine checkedProof_eq_true.mpr ⟨hverified, ?_⟩
  show verifyMessage proof.did proof.signature proof.room proof.nonce proof.canonicalText = _
  rw [hbuilt.room_eq, hbuilt.nonce_eq, hbuilt.canonicalText_eq, hbuilt.verified_eq, hverified]

/-- Where the publication comes to its send, the ledger takes the signature of the proof. -/
theorem Built.signature_of_starts (hs : Starts capability client FIRST_ANNOUNCEMENT_ROOM sha confirm db) :
    TextAccepted proof.signature := by
  obtain ⟨signed, hsigned, hsignature⟩ := hbuilt.signed_eq
  rw [hsignature]
  exact hs.accepted n signed hreserves hsigned

/-- It comes to its send if the gate can be made and the signature is in the ledger. -/
theorem Built.starts_of_reserves (hs : Writes capability FIRST_ANNOUNCEMENT_ROOM sha confirm db)
    {roomOf : PyStr} {nonce : PyInt} {object : OneTimePublicWriteGate}
    (hgate : OneTimePublicWriteGate.create client.host roomOf sha nonce true = .ok object)
    (hsignature : TextAccepted proof.signature) :
    Starts capability client FIRST_ANNOUNCEMENT_ROOM sha confirm db := by
  refine ⟨hs, OneTimePublicWriteGate.host_of_create hgate, fun m signed hreserves' hsign => ?_⟩
  obtain rfl := hreserves.unique hreserves'
  obtain ⟨signed', hsign', hsame⟩ := hbuilt.signed_eq
  rw [hsign] at hsign'
  cases hsign'
  rwa [← hsame]

/-- **What is recorded of a proof and stops**: the proof did not verify, or the ledger refused a row; so the
publication could not have come to its send. -/
theorem Built.stopped {M : Mode} {db' : Database} {k : Nat} (hconfirm : confirm = true)
    (hsha : sha = FIRST_ANNOUNCEMENT_SHA256) (hchecked : 0 < k → checkedProof proof = .ok true)
    (hno : M.calm → Unrecordable proof announcementTaskId k db') :
    Stopped M capability client FIRST_ANNOUNCEMENT_ROOM sha confirm k db := by
  refine ⟨fun hk => ?_, fun hcalm hs => ?_, fun hcalm hk hs => ?_⟩
  · exact hbuilt.writes_of_reserves hreserves (checkedProof_eq_true.mp (hchecked hk)).1 hconfirm hsha
  · obtain ⟨haccepted, hmeta, htext, hhash⟩ :=
      hbuilt.accepted (hbuilt.signature_of_starts hreserves hs) hreserves.bounds.2
    rcases hno hcalm with hunchecked | ⟨a, ha, -, hrefused⟩
    · exact hunchecked (hbuilt.checked_of_writes hreserves hs.toWrites)
    · exact hrefused (appendable_rowOf haccepted hmeta htext hhash ha)
  · rcases hno hcalm with hunchecked | ⟨a, -, hfirst, hrefused⟩
    · exact hunchecked (hbuilt.checked_of_writes hreserves hs)
    · obtain ⟨t, rfl⟩ := hfirst hk
      exact hrefused (hbuilt.appendable_prepare hreserves.bounds.2 t)

end Announced

end Starts

/-- **The publication up to the request.** Where nobody else writes, what it stops for is on its inputs. -/
theorem safe_publishFirstAnnouncementOnce {capability : CapabilitySigner} {client : TechnocoreClient}
    {room sha : PyStr} {confirm : Bool} {Q : Except Exc AnnouncementPublishResult → World → Prop}
    (hM : M.Grows) (hquiet : ∀ w', Quiet w w' → I w' ∧ ∀ e,
      (M.Alone → Stopped M capability client room sha confirm 0 w.db) → Q (.error e) w')
    (hrows : ∀ w₁ w' chosen proof s n, Quiet w w₁ →
      Built capability FIRST_ANNOUNCEMENT_ROOM FIRST_ANNOUNCEMENT_TEXT chosen proof →
      Added w₁ w' ((fourRows proof announcementTaskId s).take n) → I w' ∧ ∀ e,
        (M.Alone → Stopped M capability client room sha confirm n w.db) → Q (.error e) w')
    (hsend : ∀ w₁ w' proof s payload object, Quiet w w₁ →
      Added w₁ w' (fourRows proof announcementTaskId s) →
      Prepared capability client room sha confirm proof payload object →
      (M.Alone → Starts capability client room sha confirm w.db) →
      let w'' := { w' with gates := w'.gates ++ [object] }
      Proc.Safe (answers M) I Q (sendPrepared client ⟨proof, s.records⟩ (proofWrite proof payload)
        w'.gates.length) w'') :
    Proc.Safe (answers M) I Q (publishFirstAnnouncementOnce capability client room sha confirm) w := by
  obtain ⟨hI, hraised⟩ := hquiet w (.db w w.db)
  unfold publishFirstAnnouncementOnce
  rw [Proc.safe_ite]
  refine ⟨fun hconfirm => ⟨hI, hraised _ fun _ => Stopped.of_not_writes fun _ hs => ?_⟩, fun hconfirm => ?_⟩
  · rw [hs.confirmed] at hconfirm
    cases hconfirm
  replace hconfirm : confirm = true := by simpa using hconfirm
  rw [Proc.safe_ite]
  refine ⟨fun hroom => ⟨hI, hraised _ fun _ => Stopped.of_not_writes fun _ hs => hroom hs.room_eq⟩,
    fun hroom => ?_⟩
  rw [Proc.safe_ite]
  refine ⟨fun hsha => ⟨hI, hraised _ fun _ => Stopped.of_not_writes fun _ hs => hsha hs.sha_eq⟩, fun hsha => ?_⟩
  rw [not_not] at hroom hsha
  subst hroom
  rw [Proc.safe_bind]
  refine safe_prepareFirstAnnouncement hM
    (fun w' h => ⟨(hquiet w' h).1, fun e hno => ⟨(hquiet w' h).1, (hquiet w' h).2 e fun hA =>
      Stopped.of_not_writes fun hcalm hs => ?_⟩⟩)
    (fun w₁ w' chosen proof s n hq hbuilt hreserves h => ?_)
    fun w₁ w' chosen proof s hq hbuilt hreserves h hverified hverify => ?_
  · obtain ⟨n, signed, proof, hreserves, -, hbuilt, -⟩ := hs.built
    exact hno hA hcalm rfl n proof hreserves hbuilt
  · obtain ⟨hI', hraised'⟩ := hrows w₁ w' chosen proof s n hq hbuilt h
    exact ⟨hI', fun e hchecked hno => ⟨hI', hraised' e fun hA =>
      hbuilt.stopped (hreserves hA rfl) hconfirm hsha hchecked hno⟩⟩
  -- the checks of what was prepared pass
  obtain ⟨hI', hraised'⟩ := hrows w₁ w' chosen proof s 4 hq hbuilt h
  obtain ⟨payload, hpayload, hhashed⟩ := hbuilt.payload_eq
  rw [← hbuilt.room_eq, ← hbuilt.nonce_eq, ← hbuilt.canonicalText_eq] at hpayload
  have hhash : proof.canonicalTextHash = sha := hbuilt.canonicalTextHash_announced.trans hsha.symm
  have hverifies : (proofWrite proof payload).verifies = .ok true := hverify
  dsimp only
  rw [Proc.safe_ite]
  refine ⟨fun hother => absurd hhash hother, fun _ => ?_⟩
  rw [Proc.safe_bind, Proc.safe_lift, checkedProof_eq_true.mpr ⟨hverified, hverify⟩]
  refine ⟨hI', ?_⟩
  dsimp only
  rw [Proc.safe_ite]
  refine ⟨nofun, fun _ => ?_⟩
  rw [Proc.safe_bind, Proc.safe_lift, hpayload]
  refine ⟨hI', ?_⟩
  dsimp only
  rw [Proc.safe_bind, Proc.safe_lift, hverifies]
  refine ⟨hI', ?_⟩
  dsimp only
  rw [Proc.safe_ite]
  refine ⟨nofun, fun _ => ?_⟩
  rw [Proc.safe_bind, Proc.safe_lift]
  refine ⟨hI', ?_⟩
  have hwrites := fun hA => hbuilt.writes_of_reserves (hreserves hA rfl) hverified hconfirm hsha
  cases hgate : OneTimePublicWriteGate.create client.host proof.room sha proof.nonce true with
  | error e =>
    -- a gate can be made for a host on the denylist
    refine ⟨hI', hraised' e fun hA => ⟨fun _ => hwrites hA, fun _ hs => ?_, fun _ hn => absurd hn (by decide)⟩⟩
    have hdigest : isSha256 sha = true := by
      rw [hsha]
      decide
    obtain ⟨n, hn, hlt, hroom, -⟩ := messagePayload_eq_ok.mp hpayload
    obtain ⟨object, hobject⟩ := OneTimePublicWriteGate.create_of_host hs.host hroom hlt hdigest
    rw [hn, hobject] at hgate
    cases hgate
  | ok object =>
    have hprepared : Prepared capability client FIRST_ANNOUNCEMENT_ROOM sha confirm proof payload object :=
      ⟨hconfirm, rfl, hsha, ⟨chosen, hbuilt⟩, hhash, hpayload, hhashed, hverifies, hgate⟩
    have hsafe := hsend w₁ w' proof s payload object hq h hprepared fun hA =>
      hbuilt.starts_of_reserves (hreserves hA rfl) (hwrites hA) hgate (recorded_of_added h).signature
    dsimp only
    rw [Proc.safe_bind, safe_newGate]
    exact ⟨hI', hsafe.inv, hsafe⟩

/-! ## The result row -/

omit [Ed25519] in
/-- **The result row** is added, or the append raises. -/
theorem safe_recordPublishResult {preparation : AnnouncementPreparation} {delivered : Bool}
    {status : PyStr} {hash : Option PyStr} {seq : Option PyInt} {error : Option PyStr}
    {Q : Except Exc LedgerRecord → World → Prop} (hM : M.Grows) (hI : ∀ w', Added w w' [] → I w')
    (hraised : ∀ (t : UtcTime) e w', Added w w' [] →
      (M.calm → ¬ Appendable (resultActivity preparation delivered status hash seq error t.isoformat)
        w'.db) → Q (.error e) w')
    (hadded : ∀ (t : UtcTime) record w',
      Added w w' [(resultActivity preparation delivered status hash seq error t.isoformat, record)] →
        I w' ∧ Q (.ok record) w') :
    Proc.Safe (answers M) I Q (recordPublishResult preparation delivered status hash seq error) w := by
  unfold recordPublishResult
  rw [Proc.safe_bind, safe_utcNow]
  refine ⟨hI w (.refl w), fun t => ?_⟩
  dsimp only
  refine safe_append_added hM (.refl w) hI (hraised t) fun record w' h => ?_
  exact hadded t record w' h

omit [Ed25519] in
/-- **What becomes of a response.** It cannot be hashed, or it is recorded as unexpected, or as
published; only the last returns. -/
theorem safe_recordResponse {preparation : AnnouncementPreparation} {response : PyVal}
    {Q : Except Exc AnnouncementPublishResult → World → Prop} (hM : M.Grows)
    (hI : ∀ w', Added w w' [] → I w')
    (hunhashed : ∀ e, responseHash response = .error e → Q (.error e) w)
    (hunexpected : ∀ hash, responseHash response = .ok hash →
      (∀ seq, response.get (py "ok") = .leaf (.bool true) →
        asInt (response.get (py "seq")) ≠ some seq) →
      (∀ (t : UtcTime) e w', Added w w' [] → (M.calm → ¬ Appendable (resultActivity preparation false
        (py "UNEXPECTED_RESPONSE") (some hash) none none t.isoformat) w'.db) → Q (.error e) w') ∧
      ∀ (t : UtcTime) record w', Added w w' [(resultActivity preparation false
        (py "UNEXPECTED_RESPONSE") (some hash) none none t.isoformat, record)] →
          I w' ∧ ∀ e, Q (.error e) w')
    (hpublished : ∀ hash seq, responseHash response = .ok hash →
      response.get (py "ok") = .leaf (.bool true) → asInt (response.get (py "seq")) = some seq →
      (∀ (t : UtcTime) e w', Added w w' [] → (M.calm → ¬ Appendable (resultActivity preparation true
        PUBLISHED (some hash) (some seq) none t.isoformat) w'.db) → Q (.error e) w') ∧
      ∀ (t : UtcTime) record w', Added w w' [(resultActivity preparation true
        PUBLISHED (some hash) (some seq) none t.isoformat, record)] →
          I w' ∧ Q (.ok ⟨preparation, record, hash, some seq⟩) w') :
    Proc.Safe (answers M) I Q (recordResponse preparation response) w := by
  have hstart := hI w (.refl w)
  unfold recordResponse
  rw [Proc.safe_bind, Proc.safe_lift]
  refine ⟨hstart, ?_⟩
  cases hhash : responseHash response with
  | error e => exact ⟨hstart, hunhashed e hhash⟩
  | ok hash =>
    dsimp only
    split
    · rename_i seq hok hseq
      obtain ⟨hraised, hadded⟩ := hpublished hash seq hhash hok hseq
      rw [Proc.safe_bind]
      refine safe_recordPublishResult hM hI (fun t e w' h hc => ⟨hI w' h, hraised t e w' h hc⟩) ?_
      intro t record w' h
      obtain ⟨hI', hQ⟩ := hadded t record w' h
      exact ⟨hI', hI', hQ⟩
    · rename_i hno
      obtain ⟨hraised, hadded⟩ := hunexpected hash hhash fun seq hok hseq => hno seq hok hseq
      rw [Proc.safe_bind]
      refine safe_recordPublishResult hM hI (fun t e w' h hc => ⟨hI w' h, hraised t e w' h hc⟩) ?_
      intro t record w' h
      obtain ⟨hI', hQ⟩ := hadded t record w' h
      exact ⟨hI', hI', hQ _⟩

/-- What becomes of a refusal. -/
theorem safe_sendPrepared {client : TechnocoreClient} {preparation : AnnouncementPreparation}
    {write : SignedWrite} {gate : Nat} {Q : Except Exc AnnouncementPublishResult → World → Prop}
    (hM : M.Grows) (hI : ∀ w', TechnocoreClient.SendReach client write (some gate) w w' → I w')
    (hescaped : ∀ e urls w', TechnocoreClient.SendExit client write (some gate) w (.error e) urls →
      TechnocoreClient.SendEnd (some gate) urls w w' → e.cls.isTechnocoreError = false →
      Q (.error e) w')
    (hrefused : ∀ e urls w', TechnocoreClient.SendExit client write (some gate) w (.error e) urls →
      TechnocoreClient.SendEnd (some gate) urls w w' → e.cls.isTechnocoreError = true →
      (∀ w'', Added w' w'' [] → I w'') ∧
      (∀ (t : UtcTime) e' w'', Added w' w'' [] → (M.calm → ¬ Appendable (resultActivity preparation false
        (py "AMBIGUOUS_OR_FAILED") none none (some (technocoreErrorName e)) t.isoformat) w''.db) →
          Q (.error e') w'') ∧
      ∀ (t : UtcTime) record w'', Added w' w'' [(resultActivity preparation false
        (py "AMBIGUOUS_OR_FAILED") none none (some (technocoreErrorName e)) t.isoformat, record)] →
          I w'' ∧ ∀ e', Q (.error e') w'')
    (hanswered : ∀ response urls w', TechnocoreClient.SendExit client write (some gate) w
      (.ok response) urls → TechnocoreClient.SendEnd (some gate) urls w w' →
      Proc.Safe (answers M) I Q (recordResponse preparation response) w') :
    Proc.Safe (answers M) I Q (sendPrepared client preparation write gate) w := by
  unfold sendPrepared
  rw [Proc.safe_bind, Proc.safe_catch]
  refine TechnocoreClient.send_safe hI fun r urls w' hexit hend => ?_
  have hreach : I w' := hI w' ⟨hend.db, hend.gates, Or.inr ⟨r, urls, hexit, hend.trace⟩⟩
  cases r with
  | ok response => exact ⟨hreach, hanswered response urls w' hexit hend⟩
  | error e =>
    dsimp only
    rw [Proc.safe_ite]
    refine ⟨fun hcls => ?_, fun hcls => ?_⟩
    · obtain ⟨hI', hraised, hadded⟩ := hrefused e urls w' hexit hend hcls
      rw [Proc.safe_bind]
      refine safe_recordPublishResult hM hI'
        (fun t e' w'' h hc => ⟨hI' w'' h, hI' w'' h, hraised t e' w'' h hc⟩) ?_
      intro t record w'' h
      obtain ⟨hI'', hQ⟩ := hadded t record w'' h
      exact ⟨hI'', hI'', hI'', hQ _⟩
    · exact ⟨hreach, hreach, hescaped e urls w' hexit hend (by simpa using hcls)⟩

end Publication

end FlopOffice.Technocore
