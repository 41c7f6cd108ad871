/-
# FlopOffice.Technocore.ProofRows — which rows of a proof the ledger has nothing against.

The rows of an announcement repeat the did, the room, the nonce, the hash and the signature of its proof,
and carry a flat `meta` of short texts. Once the proof's own texts are accepted (`ProofAccepted`) the ledger
has nothing against any of the four rows (`appendable_rowOf`), nor against the result row that follows them
(`appendable_resultActivity`).
-/
import FlopOffice.Technocore.Accepted

namespace FlopOffice.Technocore

open FlopOffice.Identity FlopOffice.Lib FlopOffice.Proof FlopOffice.Python FlopOffice.Storage

/-! ## Rows with plain texts -/

/-- A text that shows no mark inside quotes, and can be stored. -/
def PlainText (s : PyStr) : Prop := Unmarked (escape s) ∧ ∀ c ∈ s, c.isSurrogate = false

instance (s : PyStr) : Decidable (PlainText s) :=
  inferInstanceAs (Decidable (_ ∧ ∀ c ∈ s, c.isSurrogate = false))

theorem plainText_hexOf (digest : Bytes) : PlainText (hexOf digest) := by
  have halphabet : ∀ c ∈ hexAlphabet, c ∉ escaped ∧ c.isSurrogate = false := by decide
  have hmem : ∀ c ∈ hexOf digest, c ∈ hexAlphabet := fun c hc => mem_hexAlphabet_of_mem_hexOf hc
  refine ⟨?_, fun c hc => (halphabet c (hmem c hc)).2⟩
  rw [escape_of_plain fun c hc => (halphabet c (hmem c hc)).1]
  exact unmarked_hexOf digest

/-- A plain text or a bool under a plain key. -/
def FlatItem (kv : PyStr × PyVal) : Prop :=
  PlainText kv.1 ∧ ((∃ s, kv.2 = .leaf (.str s) ∧ PlainText s) ∨ ∃ b, kv.2 = .leaf (.bool b))

theorem flatItem_text {key : String} {value : PyStr} (hkey : PlainText (py key))
    (hvalue : PlainText value) : FlatItem (textItem key value) :=
  ⟨hkey, Or.inl ⟨value, rfl, hvalue⟩⟩

section Rows

variable [PyRuntime]

theorem FlatItem.plain {kv : PyStr × PyVal} (h : FlatItem kv) : PlainItem kv := by
  obtain ⟨hkey, ⟨s, hs, hplain⟩ | ⟨b, hb⟩⟩ := h
  · refine ⟨hkey.1, .str s, _, hs, rfl, unmarked_quote.mpr hplain.1⟩
  · refine ⟨hkey.1, .bool b, _, hb, rfl, ?_⟩
    cases b <;> decide

/-- **A record of flat items is accepted.** -/
theorem metaAccepted_flat {a : Activity} {items : List (PyStr × PyVal)}
    (ha : a.metadata = some (.record items)) (h : ∀ kv ∈ items, FlatItem kv) : MetaAccepted a := by
  refine metaAccepted_record ha (fun kv hkv => (h kv hkv).plain) fun s hs c hc => ?_
  rw [PyVal.record, strings, mem_stringsItems] at hs
  obtain ⟨k, v, hkv, hs⟩ := hs
  obtain ⟨kv, hmem, heq⟩ := List.mem_map.mp hkv
  cases heq
  obtain ⟨hkey, hvalue⟩ := h kv hmem
  rcases hs with hs | hs
  · cases hs
    exact hkey.2 c hc
  · rcases hvalue with ⟨t, ht, hplain⟩ | ⟨b, hb⟩
    · rw [ht, strings, List.mem_singleton] at hs
      exact hplain.2 c (hs ▸ hc)
    · rw [hb] at hs
      exact absurd hs List.not_mem_nil

/-- What the columns of a proof's rows take from it is accepted. -/
structure ProofAccepted (proof : AnnouncementProof) : Prop where
  did_ne : proof.did ≠ []
  did : TextAccepted proof.did
  room : TextAccepted proof.room
  payloadHash : TextAccepted proof.payloadHash
  signature : TextAccepted proof.signature
  nonce : storable proof.nonce.toInt = true

/-- What is known of a proof whose four rows are there. -/
structure Recorded (proof : AnnouncementProof) (blockedId : PyStr) (db : Database) : Prop
    extends ProofAccepted proof where
  id_eq : ∃ bits, blockedId = uuid4 bits
  row : ∃ r ∈ db.activities, r .activityId = .text blockedId

theorem Recorded.grow {proof : AnnouncementProof} {blockedId : PyStr} {db db' : Database}
    (h : Recorded proof blockedId db) (hsub : db.activities ⊆ db'.activities) :
    Recorded proof blockedId db' := by
  obtain ⟨r, hr, hid⟩ := h.row
  exact { h with row := ⟨r, hsub hr, hid⟩ }

theorem recorded_of_added {w w' : World} {proof : AnnouncementProof} {taskId : PyStr}
    {s : ProofStamps} (h : Added w w' (fourRows proof taskId s)) :
    Recorded proof s.records.publishBlocked.activityId w'.db := by
  have hsigned : (signedActivity proof taskId s.t₂ s.records.prepareIntent.activityId,
      s.records.signedLocal) ∈ fourRows proof taskId s := by simp [fourRows]
  have hblocked : (blockedActivity proof taskId s.t₄ s.records.verifiedLocal.activityId,
      s.records.publishBlocked) ∈ fourRows proof taskId s := by simp [fourRows]
  have hcolumns := h.columnsAccepted hsigned
  have hin : ∀ t, t ∈ stringColumns (signedActivity proof taskId s.t₂
      s.records.prepareIntent.activityId) → TextAccepted t := hcolumns.texts
  obtain ⟨bits, hbits, hrow⟩ := h.referable hblocked
  refine ⟨⟨?_, hin _ ?_, hin _ ?_, hin _ ?_, hin _ ?_, hcolumns.nonce _ rfl⟩, ⟨bits, hbits⟩, hrow⟩
  · obtain ⟨metaText, hprepare⟩ := h.prepared _ hsigned
    have hvalid := (prepare_eq_ok.mp hprepare).1
    intro hdid
    unfold validate at hvalid
    rw [if_pos (show (signedActivity proof taskId s.t₂ _).agentDid = [] from hdid)] at hvalid
    cases hvalid
  · simp [stringColumns, signedActivity, proofActivity]
  · simp [stringColumns, signedActivity, proofActivity]
  · simp [stringColumns, signedActivity, proofActivity]
  · simp [stringColumns, signedActivity, proofActivity]

/-- **The ledger has nothing against a row of a proof** whose texts are accepted, whose `meta` is flat, and
whose integers fit. -/
theorem appendable_proofActivity {proof : AnnouncementProof} {type : String} {t : UtcTime}
    {taskId ref signature resultHash : Option PyStr} {items : List (PyStr × PyVal)} {seq : Option PyInt}
    {db : Database} (hknown : py type ∈ ACTIVITY_TYPES) (hdid_ne : proof.did ≠ [])
    (htexts : ∀ s ∈ [proof.did, py type, proof.room, proof.payloadHash, py "NONE"] ++ taskId.toList ++
      ref.toList ++ signature.toList ++ resultHash.toList, TextAccepted s)
    (hitems : ∀ kv ∈ items, FlatItem kv) (hnonce : storable proof.nonce.toInt = true)
    (hseq : ∀ n, seq = some n → storable n.toInt = true)
    (href : ∀ id, ref = some id → ∃ r ∈ db.activities, r .activityId = .text id) :
    Appendable { proofActivity proof type t.isoformat taskId ref items with
      tcSeq := seq, signature := signature, resultHash := resultHash } db := by
  refine appendable_of_accepted ?_ ⟨fun s hs => ?_, hseq, ?_⟩ (metaAccepted_flat rfl hitems) href
  · have hunit : py "NONE" ∈ VALID_COST_UNITS := List.mem_cons_self
    unfold validate
    exact (if_neg hdid_ne).trans ((if_neg (not_not.mpr hknown)).trans
      ((if_neg (not_not.mpr hunit)).trans (if_neg fun hcost => nomatch hcost.1)))
  · have hs' : s ∈ [proof.did, py type, proof.room, proof.payloadHash, py "NONE"] ++ taskId.toList ++
        ref.toList ++ signature.toList ++ resultHash.toList ∨ s = t.isoformat := by
      simp only [stringColumns, proofActivity, List.mem_filterMap, List.mem_cons, List.not_mem_nil,
        or_false, id_eq, exists_eq_right, Option.some.injEq, reduceCtorEq, false_or, List.mem_append,
        Option.mem_toList] at hs ⊢
      grind
    rcases hs' with h | rfl
    · exact htexts s h
    · exact textAccepted_isoformat t
  · intro n hn
    cases hn
    exact hnonce

omit [PyRuntime] in
theorem plainText_announcementHash : PlainText FIRST_ANNOUNCEMENT_SHA256 := by
  rw [show FIRST_ANNOUNCEMENT_SHA256 = _ from py_ofList _]
  decide

omit [PyRuntime] in
theorem plainText_status :
    PlainText PUBLISHED ∧ PlainText (py "UNEXPECTED_RESPONSE") ∧ PlainText (py "AMBIGUOUS_OR_FAILED") := by
  decide

/-- The texts that are the same in the rows of every proof. -/
def fixedTexts : List PyStr :=
  [py "NONE", announcementTaskId, py "technocore_message_prepare_intent",
   py "technocore_message_signed_local", py "technocore_message_verified_local",
   py "technocore_message_publish_blocked", py "technocore_message_publish_result"]

theorem fixedTexts_accepted : ∀ s ∈ fixedTexts, TextAccepted s := by
  have hplain : ∀ s ∈ fixedTexts, Unmarked s ∧ cp ' ' ∉ s ∧ ∀ c ∈ s, c.isSurrogate = false := by
    unfold fixedTexts
    rw [show announcementTaskId = _ from py_ofList _,
      show py "technocore_message_prepare_intent" = _ from py_ofList _,
      show py "technocore_message_signed_local" = _ from py_ofList _,
      show py "technocore_message_verified_local" = _ from py_ofList _,
      show py "technocore_message_publish_blocked" = _ from py_ofList _,
      show py "technocore_message_publish_result" = _ from py_ofList _]
    decide
  intro s hs
  obtain ⟨hmarks, hblank, hsurrogate⟩ := hplain s hs
  exact textAccepted_of_unmarked hmarks hblank hsurrogate

/-- The keys in the `meta` of the four rows. -/
def metaKeys : List String :=
  ["canonicalization_profile", "canonical_text_hash", "original_text_hash", "payload_hash",
   "publish_status", "reason", "signing_algorithm", "stage", "canonical_text", "signature_verification",
   "technocore_publish"]

omit [PyRuntime] in
theorem metaKeys_plain : ∀ key ∈ metaKeys, PlainText (py key) := by decide

/-- **The ledger has nothing against the four rows** of a proof that is accepted and whose texts are
plain. -/
theorem appendable_rowOf {proof : AnnouncementProof} {db : Database} {a : Activity}
    (h : ProofAccepted proof) (hmeta : ∀ kv ∈ commonMeta proof, FlatItem kv)
    (htext : PlainText proof.canonicalText) (hhash : TextAccepted proof.canonicalTextHash)
    (ha : RowOf proof announcementTaskId db a) : Appendable a db := by
  have hfixed : ∀ s, s ∈ fixedTexts → TextAccepted s := fixedTexts_accepted
  have hitem : ∀ {key : String} {value : PyStr}, key ∈ metaKeys → PlainText value →
      FlatItem (textItem key value) := fun hkey hvalue => flatItem_text (metaKeys_plain _ hkey) hvalue
  -- what the four rows have in common
  have hrow : ∀ (type : String) (t : UtcTime) (ref signature resultHash : Option PyStr)
      (extra : List (PyStr × PyVal)), py type ∈ ACTIVITY_TYPES → py type ∈ fixedTexts →
      (∀ id, ref = some id → TextAccepted id ∧ ∃ r ∈ db.activities, r .activityId = .text id) →
      (∀ s ∈ signature.toList ++ resultHash.toList, TextAccepted s) → (∀ kv ∈ extra, FlatItem kv) →
      Appendable { proofActivity proof type t.isoformat (some announcementTaskId) ref
        (commonMeta proof ++ extra) with signature := signature, resultHash := resultHash } db := by
    intro type t ref signature resultHash extra hknown htype href hartefacts hextra
    have hseq : ∀ n, (none : Option PyInt) = some n → storable n.toInt = true :=
      fun n hn => absurd hn.symm (Option.some_ne_none n)
    refine appendable_proofActivity hknown h.did_ne (fun s hs => ?_)
      (List.forall_mem_append.mpr ⟨hmeta, hextra⟩) h.nonce hseq fun id hid => (href id hid).2
    simp only [List.mem_append, List.mem_cons, List.not_mem_nil, or_false, Option.mem_toList,
      Option.some.injEq] at hs
    rcases hs with ((((rfl | rfl | rfl | rfl | rfl) | rfl) | hs) | hs) | hs
    · exact h.did
    · exact hfixed _ htype
    · exact h.room
    · exact h.payloadHash
    · exact hfixed _ (by simp [fixedTexts])
    · exact hfixed _ (by simp [fixedTexts])
    · exact (href s hs).1
    · exact hartefacts s (by simp [hs])
    · exact hartefacts s (by simp [hs])
  obtain ⟨t, rfl | ⟨bits, hreferred, ha⟩⟩ := ha
  · exact hrow "technocore_message_prepare_intent" t none none none _ (by simp [ACTIVITY_TYPES])
      (by simp [fixedTexts]) (fun id hid => absurd hid.symm (Option.some_ne_none id))
      (List.forall_mem_nil _) (List.forall_mem_singleton.mpr (hitem (by simp [metaKeys]) (by decide)))
  · have href : ∀ id, some (uuid4 bits) = some id →
        TextAccepted id ∧ ∃ r ∈ db.activities, r .activityId = .text id := by
      rintro _ ⟨⟩
      exact ⟨textAccepted_uuid4 bits, hreferred⟩
    have hsigned : ∀ s ∈ [proof.signature], TextAccepted s := List.forall_mem_singleton.mpr h.signature
    have htwo : ∀ {key key' : String} {value value' : PyStr}, key ∈ metaKeys → key' ∈ metaKeys →
        PlainText value → PlainText value' →
        ∀ kv ∈ [textItem key value, textItem key' value'], FlatItem kv := fun hkey hkey' hvalue hvalue' =>
      List.forall_mem_cons.mpr ⟨hitem hkey hvalue, List.forall_mem_singleton.mpr (hitem hkey' hvalue')⟩
    rcases ha with rfl | rfl | rfl
    · exact hrow "technocore_message_signed_local" t _ (some proof.signature) none _
        (by simp [ACTIVITY_TYPES]) (by simp [fixedTexts]) href hsigned
        (htwo (by simp [metaKeys]) (by simp [metaKeys]) htext (by decide))
    · exact hrow "technocore_message_verified_local" t _ (some proof.signature) none _
        (by simp [ACTIVITY_TYPES]) (by simp [fixedTexts]) href hsigned
        (htwo (by simp [metaKeys]) (by simp [metaKeys]) (by decide) (by decide))
    · exact hrow "technocore_message_publish_blocked" t _ none (some proof.canonicalTextHash) _
        (by simp [ACTIVITY_TYPES]) (by simp [fixedTexts]) href (List.forall_mem_singleton.mpr hhash)
        (htwo (by simp [metaKeys]) (by simp [metaKeys]) (by decide) (by decide))

omit [PyRuntime] in
/-- The announcement is its own sweep, has the hash that is expected of it, and is plain. -/
theorem announcement_text : singleLineSweep FIRST_ANNOUNCEMENT_TEXT = FIRST_ANNOUNCEMENT_TEXT ∧
    sha256Text FIRST_ANNOUNCEMENT_TEXT = .ok FIRST_ANNOUNCEMENT_SHA256 ∧
    PlainText FIRST_ANNOUNCEMENT_TEXT := by
  have htext : FIRST_ANNOUNCEMENT_TEXT = _ := py_append_ofList (py_append_ofList (py_append_ofList
    (py_append_ofList (py_append_ofList (py_ofList _) _) _) _) _) _
  unfold sha256Text
  rw [funext hexdigest_eq_packed, htext, show FIRST_ANNOUNCEMENT_SHA256 = _ from py_ofList _]
  decide +kernel

/-- **The ledger has nothing against a result row** whose texts are plain, whose hash is one, and whose
`seq` fits. -/
theorem appendable_resultActivity {preparation : AnnouncementPreparation} {db : Database}
    {delivered : Bool} {status : PyStr} {hash error : Option PyStr} {seq : Option PyInt} {t : UtcTime}
    (h : Recorded preparation.proof preparation.records.publishBlocked.activityId db)
    (hcanonical : PlainText preparation.proof.canonicalTextHash) (hstatus : PlainText status)
    (hhash : ∀ s, hash = some s → ∃ digest, s = hexOf digest)
    (herror : ∀ s, error = some s → PlainText s)
    (hseq : ∀ n, seq = some n → storable n.toInt = true) :
    Appendable (resultActivity preparation delivered status hash seq error t.isoformat) db := by
  have hknown : py "technocore_message_publish_result" ∈ ACTIVITY_TYPES := by simp [ACTIVITY_TYPES]
  refine appendable_proofActivity hknown h.did_ne (fun s hs => ?_) (fun kv hkv => ?_) h.nonce hseq ?_
  · simp only [List.mem_append, List.mem_cons, List.not_mem_nil, or_false, Option.mem_toList,
      reduceCtorEq, Option.some.injEq] at hs
    rcases hs with (((rfl | rfl | rfl | rfl | rfl) | rfl) | rfl) | hs
    · exact h.did
    · exact fixedTexts_accepted _ (by simp [fixedTexts])
    · exact h.room
    · exact h.payloadHash
    · exact fixedTexts_accepted _ (by simp [fixedTexts])
    · obtain ⟨bits, hbits⟩ := h.id_eq
      rw [hbits]
      exact textAccepted_uuid4 bits
    · exact h.signature
    · obtain ⟨digest, rfl⟩ := hhash s hs
      exact textAccepted_hexOf digest
  · -- the keys are fixed
    have hkeys : ∀ key ∈ ["canonical_text_hash", "message_sha256", "publish_status", "sent_once", "stage",
        "server_response_hash", "error"], PlainText (py key) := by decide
    have hstage : PlainText (py "publish_result") := by decide
    simp only [List.mem_append, List.mem_cons, List.not_mem_nil, or_false, List.mem_map,
      Option.mem_toList] at hkv
    rcases hkv with ((rfl | rfl | rfl | rfl | rfl) | ⟨s, hs, rfl⟩) | ⟨s, hs, rfl⟩
    · exact flatItem_text (hkeys _ (by simp)) hcanonical
    · exact flatItem_text (hkeys _ (by simp)) plainText_announcementHash
    · exact flatItem_text (hkeys _ (by simp)) hstatus
    · exact ⟨hkeys _ (by simp), Or.inr ⟨delivered, rfl⟩⟩
    · exact flatItem_text (hkeys _ (by simp)) hstage
    · obtain ⟨digest, rfl⟩ := hhash s hs
      exact flatItem_text (hkeys _ (by simp)) (plainText_hexOf digest)
    · exact flatItem_text (hkeys _ (by simp)) (herror s hs)
  · rintro _ ⟨⟩
    exact h.row

end Rows

end FlopOffice.Technocore
