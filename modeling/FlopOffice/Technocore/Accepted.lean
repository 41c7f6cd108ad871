/-
# FlopOffice.Technocore.Accepted — which rows the ledger has nothing against.

A row of a write path repeats the columns of a row before it, and adds hashes, times, an id, and a
small `meta`. What was accepted once is accepted again, and what is added is clean: so whether the
ledger takes the later row hangs on its two integers and its `meta` only.
-/
import FlopOffice.Proof.CleanText
import FlopOffice.Python.Decoded
import FlopOffice.Technocore.Recorded

namespace FlopOffice.Technocore

open FlopOffice.Identity FlopOffice.Lib FlopOffice.Proof FlopOffice.Python FlopOffice.Storage
  FlopOffice.Tools

variable [PyRuntime]

/-! ## Columns -/

/-- A text that can be stored, and passes the scan. -/
def TextAccepted (s : PyStr) : Prop :=
  (∃ b, utf8 s = .ok b) ∧ scanText s (py "<ledger-write>") = []

/-- Every column of the activity can be stored, and passes the scan. -/
structure ColumnsAccepted (a : Activity) : Prop where
  texts : ∀ s ∈ stringColumns a, TextAccepted s
  seq : ∀ n, a.tcSeq = some n → storable n.toInt = true
  nonce : ∀ n, a.tcNonce = some n → storable n.toInt = true

/-- `meta` can be written, and its text is accepted. -/
def MetaAccepted (a : Activity) : Prop :=
  a.metadata = none ∨ ∃ v t, a.metadata = some v ∧ nesting v ≤ PyRuntime.copyLimit ∧
    dumps v = .ok t ∧ t ≠ [] ∧ TextAccepted t

omit [PyRuntime] in
theorem bindValue_int {i : Int} : (∃ v, bindValue (.int i) = .ok v) ↔ storable i = true := by
  show (∃ v, (if storable i then Except.ok (SqlValue.integer i) else _) = .ok v) ↔ _
  split
  · rename_i h
    exact iff_of_true ⟨_, rfl⟩ h
  · rename_i h
    exact iff_of_false nofun h

omit [PyRuntime] in
theorem bindValue_int_eq {i : Int} {v : SqlValue} (h : bindValue (.int i) = .ok v) :
    v = .integer i := by
  replace h : (if storable i then Except.ok (SqlValue.integer i) else _) = .ok v := h
  split at h
  · cases h
    rfl
  · cases h

omit [PyRuntime] in
theorem bindValue_intScalar {x : Option PyInt} :
    (∃ v, bindValue (intScalar x) = .ok v) ↔ ∀ n, x = some n → storable n.toInt = true := by
  match x with
  | none => exact iff_of_true ⟨_, rfl⟩ nofun
  | some (.int i) =>
    refine bindValue_int.trans ⟨?_, fun h => h _ rfl⟩
    rintro h _ ⟨⟩
    exact h
  | some (.bool b) =>
    refine iff_of_true ⟨_, rfl⟩ ?_
    rintro _ ⟨⟩
    cases b <;> decide

omit [PyRuntime] in
theorem bindValue_strScalar {x : Option PyStr} :
    (∃ v, bindValue (strScalar x) = .ok v) ↔ ∀ s, x = some s → ∃ b, utf8 s = .ok b := by
  cases x with
  | none => exact iff_of_true ⟨_, rfl⟩ nofun
  | some s =>
    constructor
    · rintro ⟨v, hv⟩ _ ⟨⟩
      exact (bindValue_str.mp hv).1
    · intro h
      exact ⟨_, bindValue_str.mpr ⟨h s rfl, rfl⟩⟩

/-- **What was appended is accepted.** -/
theorem Added.columnsAccepted {w w' : World} {rows : List Appended} (h : Added w w' rows)
    {r : Appended} (hr : r ∈ rows) : ColumnsAccepted r.1 := by
  obtain ⟨metaText, hprepare⟩ := h.prepared r hr
  obtain ⟨row, -, metaJson, at_, index, prev, hrow⟩ := h.committed r hr
  have hscan := (refuseSecrets_eq_ok.mp (prepare_eq_ok.mp hprepare).2.2).2
  have hbind : ∀ c, c ≠ .entryHash → ∃ v,
      bindValue (activityRow r.1 metaJson r.2.activityId at_ index prev c) = .ok v :=
    fun c hc => ⟨_, hrow c hc⟩
  have hopt : ∀ c x, c ≠ .entryHash → activityRow r.1 metaJson r.2.activityId at_ index prev c =
      strScalar x → ∀ s, some s = x → ∃ b, utf8 s = .ok b := by
    intro c x hc hcol s hs
    have hb := hbind c hc
    rw [hcol] at hb
    exact bindValue_strScalar.mp hb s hs.symm
  refine ⟨fun s hs => ⟨?_, hscan s (List.mem_append_left _ hs)⟩,
    bindValue_intScalar.mp (hbind .tcSeq (by decide)),
    bindValue_intScalar.mp (hbind .tcNonce (by decide))⟩
  simp only [stringColumns, List.mem_filterMap, List.mem_cons, List.not_mem_nil, or_false, id_eq,
    exists_eq_right] at hs
  rcases hs with h | h | h | h | h | h | h | h | h | h | h | h | h
  · exact hopt .agentDid (some _) (by decide) rfl s h
  · exact hopt .activityType (some _) (by decide) rfl s h
  · exact hopt .occurredAt (some _) (by decide) rfl s h
  · exact hopt .taskId _ (by decide) rfl s h
  · exact hopt .refActivityId _ (by decide) rfl s h
  · exact hopt .tcRoom _ (by decide) rfl s h
  · exact hopt .signedPayloadHash _ (by decide) rfl s h
  · exact hopt .signature _ (by decide) rfl s h
  · exact hopt .resultHash _ (by decide) rfl s h
  · exact hopt .providerId _ (by decide) rfl s h
  · exact hopt .model _ (by decide) rfl s h
  · exact hopt .costAmount _ (by decide) rfl s h
  · exact hopt .costUnit (some _) (by decide) rfl s h

/-! ## What a row adds -/

theorem textAccepted_of_alphabet {s alphabet : PyStr} (hsurrogate : ∀ c ∈ alphabet, c.isSurrogate = false)
    (hclean : Clean s) (hs : ∀ c ∈ s, c ∈ alphabet) : TextAccepted s :=
  ⟨utf8_isOk_iff.mpr fun c hc => hsurrogate c (hs c hc), scanText_of_clean hclean _⟩

theorem textAccepted_hexOf (digest : Bytes) : TextAccepted (hexOf digest) :=
  textAccepted_of_alphabet (by decide) (clean_hexOf digest) fun _ hc => mem_hexAlphabet_of_mem_hexOf hc

/-- A did:key is accepted. -/
theorem textAccepted_did (d : DidKey) : d.did ≠ [] ∧ TextAccepted d.did := by
  obtain ⟨key, hkey⟩ := d.valid
  have hencode := decodeDidKey_iff_encodeDidKey.mp hkey
  have hsurrogate : ∀ c ∈ DID_PREFIX ++ MULTIBASE_BASE58BTC ++ b58Alphabet, c.isSurrogate = false := by
    decide
  refine ⟨?_, textAccepted_of_alphabet hsurrogate (clean_encodeDidKey hencode)
    fun _ hc => mem_encodeDidKey hencode hc⟩
  rw [(encodeDidKey_eq_ok.mp hencode).2]
  simp [DID_PREFIX, py]

/-- Ids and times are written in hexadecimal digits and a few more characters. -/
theorem clean_stamp {s : PyStr} (h : ∀ c ∈ s, c ∈ hexAlphabet ++ py "-T:+") : Clean s :=
  clean_of_alphabet (by decide) (by decide) (by decide) h

theorem textAccepted_uuid4 (bits : Nat) : TextAccepted (uuid4 bits) := by
  have hmem : ∀ c ∈ uuid4 bits, c ∈ hexAlphabet ++ py "-T:+" := by
    intro c hc
    rcases mem_uuid4 hc with h | rfl
    · exact List.mem_append_left _ h
    · decide
  exact textAccepted_of_alphabet (by decide) (clean_stamp hmem) hmem

theorem textAccepted_isoformat (t : UtcTime) : TextAccepted t.isoformat := by
  have hmem : ∀ c ∈ t.isoformat, c ∈ hexAlphabet ++ py "-T:+" := by
    intro c hc
    rcases mem_isoformat hc with h | h
    · exact List.mem_append_left _ h
    · exact List.mem_append_right _ h
  exact textAccepted_of_alphabet (by decide) (clean_stamp hmem) hmem

/-- A text without marks and blanks is accepted. -/
theorem textAccepted_of_unmarked {s : PyStr} (h : Unmarked s) (hblank : cp ' ' ∉ s)
    (hs : ∀ c ∈ s, c.isSurrogate = false) : TextAccepted s :=
  ⟨utf8_isOk_iff.mpr hs, scanText_of_clean (clean_of_unmarked h
    (not_found_mnemonic hblank fun _ hc => hc)) _⟩

/-- A flat record of plain items is accepted, if its texts can be stored. -/
theorem metaAccepted_record {a : Activity} {items : List (PyStr × PyVal)}
    (ha : a.metadata = some (.record items)) (h : ∀ kv ∈ items, PlainItem kv)
    (hs : ∀ s ∈ strings (.record items), ∀ c ∈ s, c.isSurrogate = false) : MetaAccepted a := by
  obtain ⟨t, ht, hne, hclean⟩ := clean_record h
  have hnesting : nesting (.record items) ≤ 1 := by
    refine Nat.succ_le_succ (nestingItems_le.mpr fun kv hkv => ?_)
    obtain ⟨kv', hkv', rfl⟩ := List.mem_map.mp hkv
    obtain ⟨-, x, -, hx, -⟩ := h kv' hkv'
    rw [hx]
    exact Nat.zero_le 0
  refine Or.inr ⟨_, t, ha, ?_, ht, hne, (utf8_dumps_iff ht).mpr hs, scanText_of_clean hclean _⟩
  exact hnesting.trans (Nat.le_trans (by decide) PyRuntime.copyLimit_ge)

/-! ## The whole row -/

/-- **The ledger has nothing against a row of accepted parts.** -/
theorem appendable_of_accepted {a : Activity} {db : Database} (hvalid : validate a = .ok ())
    (hcolumns : ColumnsAccepted a) (hmeta : MetaAccepted a)
    (href : ∀ ref, a.refActivityId = some ref → ∃ r ∈ db.activities, r .activityId = .text ref) :
    Appendable a db := by
  have hcol : ∀ s, s ∈ stringColumns a → ∃ b, utf8 s = .ok b := fun s hs => (hcolumns.texts s hs).1
  obtain ⟨metaText, hjson, hrefuse, htext⟩ : ∃ metaText, metaJson a = .ok metaText ∧
      refuseSecrets a metaText = .ok () ∧ ∀ t, metaText = some t → ∃ b, utf8 t = .ok b := by
    rcases hmeta with hnone | ⟨v, t, hv, hdeep, ht, hne, htext, hscan⟩
    · refine ⟨none, by rw [metaJson, hnone], refuseSecrets_eq_ok.mpr ⟨?_, ?_⟩, nofun⟩
      · rw [hnone]
        exact Nat.zero_le _
      · intro s hs
        rw [Option.toList_none, List.filter_nil, List.append_nil] at hs
        exact (hcolumns.texts s hs).2
    · refine ⟨some t, ?_, refuseSecrets_eq_ok.mpr ⟨?_, ?_⟩, ?_⟩
      · rw [metaJson, hv]
        exact map_eq_ok.mpr ⟨t, ht, rfl⟩
      · rw [hv]
        exact hdeep
      · intro s hs
        rcases List.mem_append.mp hs with hs | hs
        · exact (hcolumns.texts s hs).2
        · obtain ⟨hmem, -⟩ := List.mem_filter.mp hs
          rw [List.mem_singleton.mp hmem]
          exact hscan
      · rintro _ ⟨⟩
        exact htext
  refine ⟨⟨metaText, prepare_eq_ok.mpr ⟨hvalid, hjson, hrefuse⟩, fun bits now c => ?_⟩, href⟩
  have hopt : ∀ x : Option PyStr, (∀ s, x = some s → s ∈ stringColumns a) →
      ∃ v, bindValue (strScalar x) = .ok v :=
    fun x hx => bindValue_strScalar.mpr fun s hs => hcol s (hx s hs)
  have hone : ∀ s, s ∈ stringColumns a → ∃ v, bindValue (.str s) = .ok v :=
    fun s hs => ⟨_, bindValue_str.mpr ⟨hcol s hs, rfl⟩⟩
  cases c with
  | activityId => exact ⟨_, bindValue_str.mpr ⟨(textAccepted_uuid4 bits).1, rfl⟩⟩
  | recordedAt => exact ⟨_, bindValue_str.mpr ⟨(textAccepted_isoformat now).1, rfl⟩⟩
  | chainIndex | prevHash | entryHash => exact ⟨_, rfl⟩
  | tcSeq => exact bindValue_intScalar.mpr hcolumns.seq
  | tcNonce => exact bindValue_intScalar.mpr hcolumns.nonce
  | metaJson => exact bindValue_strScalar.mpr htext
  | agentDid | activityType | costUnit | occurredAt =>
    exact hone _ (by simp [stringColumns])
  | taskId | refActivityId | tcRoom | signedPayloadHash | signature | resultHash | providerId
  | model | costAmount =>
    refine hopt _ fun s hs => ?_
    simp [stringColumns, hs]

/-! ## Appends that succeed -/

theorem prepare_of_appendable {a : Activity} {db : Database} {metaText : Option PyStr}
    (h : Appendable a db) (hjson : metaJson a = .ok metaText) : prepare a = .ok metaText := by
  obtain ⟨⟨metaText', hprepare, -⟩, -⟩ := h
  have hjson' := (prepare_eq_ok.mp hprepare).2.1
  rw [hjson] at hjson'
  cases hjson'
  exact hprepare

/-- The transaction of a call, as an append that runs alone. -/
theorem appendAlone_of_run {call : AppendCall} {db db' : Database} {metaText : Option PyStr}
    {record : LedgerRecord} (hprepare : prepare call.activity = .ok metaText)
    (hrun : (appendBlock call.activity metaText (uuid4 call.uuidBits) call.now.isoformat).run db =
      .ok (record, db')) : appendAlone call db = (.ok record, db') := by
  unfold appendAlone append
  rw [hprepare]
  dsimp only
  rw [hrun]

/-- **What the ledger has nothing against is appended** to a sound table, if its id and its hash are
new. -/
theorem appended_of_appendable (call : AppendCall) {db : Database} (hs : SoundTable db.activities)
    (hlen : storable db.activities.length = true) (h : Appendable call.activity db)
    (hfresh : ∀ metaText, prepare call.activity = .ok metaText →
      Fresh db call.activity metaText (uuid4 call.uuidBits) call.now.isoformat) :
    ∃ metaText record db', metaJson call.activity = .ok metaText ∧
      (appendBlock call.activity metaText (uuid4 call.uuidBits) call.now.isoformat).run db =
        .ok (record, db') ∧
      appendAlone call db = (.ok record, db') := by
  obtain ⟨⟨metaText, hprepare, hbind⟩, href⟩ := h
  have hbindable : Bindable call.activity metaText (uuid4 call.uuidBits) call.now.isoformat
      db.activities.length := by
    intro c
    have hfirst := hbind call.uuidBits call.now c
    cases c with
    | chainIndex => exact bindValue_int.mpr hlen
    | _ => exact hfirst
  obtain ⟨record, db', hrun⟩ := (appendBlock_succeeds_iff (prepare_eq_ok.mp hprepare).1 hs).mpr
    ⟨hbindable, href, hfresh metaText hprepare⟩
  exact ⟨metaText, record, db', (prepare_eq_ok.mp hprepare).2.1, hrun, appendAlone_of_run hprepare hrun⟩

/-- An append that succeeds, as an execution. -/
theorem ledgerAppend_exec [PyBuiltins] {M : Mode} {call : AppendCall} {w : World} {db' : Database}
    {record : LedgerRecord} (hM : M.others w.db w.db)
    (h : appendAlone call w.db = (.ok record, db')) :
    Proc.Exec (answers M) (ledgerAppend call.activity) w (.ok record)
      { w with db := db', trace := w.trace ++ [.appended call.activity record] } := by
  refine Proc.exec_call ⟨w.db, hM, Or.inl ⟨call.uuidBits, call.now, fun _ _ => ⟨record, ?_⟩, ?_, ?_⟩⟩
  · rw [h]
  · rw [h]
  · rw [h]

/-- A reservation does not write to the table. -/
theorem reserveAlone_activities (agentDid scope : PyStr) (floor : Int) (db : Database) :
    (reserveAlone agentDid scope floor db).2.activities = db.activities := by
  unfold reserveAlone
  cases hreserve : Identity.reserve agentDid scope floor with
  | error e => rfl
  | ok block =>
    dsimp only
    cases hrun : block.run db with
    | error e => rfl
    | ok out =>
      obtain ⟨r, db'⟩ := out
      simp only [Identity.reserve] at hreserve
      split at hreserve
      · cases hreserve
      split at hreserve
      · cases hreserve
      split at hreserve
      · cases hreserve
      cases hreserve
      exact (upsertNonce_eq_ok (reserveBlock_run hrun).2).1

/-! ## Appends whose hashes are known -/

/-- The hash of the record of a call, at this place in the chain. -/
def callHash (call : AppendCall) (index : Int) (prev : PyStr) : Except Exc PyStr := do
  let metaText ← metaJson call.activity
  computeEntryHash (activityRow call.activity metaText (uuid4 call.uuidBits) call.now.isoformat index
    (.str prev))

/-- The ledger of these hashes, whose ids count its records. -/
structure Stands (hashes : List PyStr) (rows : List ActivityRow) : Prop where
  sound : SoundTable rows
  length : rows.length = hashes.length
  head : headHash rows = some (.str (hashes.getLastD GENESIS_PREV_HASH))
  hash : ∀ r ∈ rows, ∃ h ∈ hashes, r .entryHash = .text h
  id : ∀ r ∈ rows, ∃ i < hashes.length, r .activityId = .text (uuid4 i)
  row : ∀ i < hashes.length, ∃ r ∈ rows, r .activityId = .text (uuid4 i)

theorem Stands.nil : Stands [] [] :=
  ⟨⟨List.forall_mem_nil _, trivial⟩, rfl, rfl, List.forall_mem_nil _, List.forall_mem_nil _,
    fun _ hi => absurd hi (Nat.not_lt_zero _)⟩

/-- **The next append to a ledger whose hashes are known** goes through if its own hash is new, and the
ledger goes on if its values are plain. -/
theorem Stands.append {hashes : List PyStr} {db : Database} (h : Stands hashes db.activities)
    (call : AppendCall) (happendable : Appendable call.activity db) (hbits : call.uuidBits = hashes.length)
    (hlen : storable hashes.length = true) (hid : ∀ i < hashes.length, uuid4 i ≠ uuid4 hashes.length)
    {hash : PyStr} (hhash : callHash call hashes.length (hashes.getLastD GENESIS_PREV_HASH) = .ok hash)
    (hnew : hash ∉ hashes) :
    ∃ metaText row, metaJson call.activity = .ok metaText ∧
      appendAlone call db = (.ok ⟨uuid4 hashes.length, hashes.length, .str (hashes.getLastD GENESIS_PREV_HASH),
        hash, call.now.isoformat⟩, { db with activities := db.activities ++ [row] }) ∧
      (∀ c, bindValue (Function.update (activityRow call.activity metaText (uuid4 hashes.length)
        call.now.isoformat hashes.length (.str (hashes.getLastD GENESIS_PREV_HASH))) .entryHash (.str hash) c) =
          .ok (row c)) ∧
      (call.activity.PlainInts → Stands (hashes ++ [hash]) (db.activities ++ [row])) := by
  obtain ⟨metaText, hjson, hcomputed⟩ := bind_eq_ok.mp hhash
  rw [hbits] at hcomputed
  obtain ⟨metaText', record, db', hjson', hrun, halone⟩ := appended_of_appendable call h.sound
    (by rw [h.length]; exact hlen) happendable fun metaText' hprepare => by
      have hjson' := (prepare_eq_ok.mp hprepare).2.1
      rw [hjson] at hjson'
      cases hjson'
      refine ⟨fun t ht heq => ?_, fun prev hash' hprev hcomputed' t ht heq => ?_⟩
      · obtain ⟨i, hi, hti⟩ := h.id t ht
        rw [hti, hbits] at heq
        exact hid i hi (SqlValue.text.inj heq)
      · rw [h.head] at hprev
        cases hprev
        rw [hbits, h.length, hcomputed] at hcomputed'
        cases hcomputed'
        obtain ⟨known, hknown, hte⟩ := h.hash t ht
        rw [hte] at heq
        exact hnew (SqlValue.text.inj heq ▸ hknown)
  rw [hjson] at hjson'
  cases hjson'
  obtain ⟨index, prev, hash', row, hlink, -, hcomputed', hbind, -, rfl, rfl⟩ := appendBlock_run_eq_ok.mp hrun
  -- the head is known, so the hash is
  obtain ⟨p, hlink', hprev, -, -⟩ := h.sound.nextLink
  rw [hlink'] at hlink
  cases hlink
  rw [h.head] at hprev
  cases hprev
  rw [h.length] at hcomputed' hbind halone
  rw [hbits] at hcomputed' hbind halone
  rw [hcomputed] at hcomputed'
  cases hcomputed'
  refine ⟨metaText, row, hjson, halone, hbind, fun hplain => ?_⟩
  obtain ⟨_, _, row', hdb, hrecord, -, hsound, hhead, -⟩ := appendBlock_spec hplain h.sound hrun
  have hid : row .activityId = .text (uuid4 hashes.length) := (bindValue_str.mp (hbind .activityId)).2
  have hentry : row .entryHash = .text hash := by
    have hcolumn := hbind .entryHash
    rw [Function.update_self] at hcolumn
    exact (bindValue_str.mp hcolumn).2
  cases hrecord
  refine ⟨hsound, ?_, ?_, fun r hr => ?_, fun r hr => ?_, fun i hi => ?_⟩
  · rw [List.length_append, List.length_append, h.length]
    rfl
  · rw [hhead, List.getLastD_concat]
  · rcases List.mem_append.mp hr with hr | hr
    · obtain ⟨known, hknown, hr⟩ := h.hash r hr
      exact ⟨known, List.mem_append_left _ hknown, hr⟩
    · rw [List.mem_singleton.mp hr]
      exact ⟨hash, List.mem_append_right _ List.mem_cons_self, hentry⟩
  · rw [List.length_append, List.length_singleton]
    rcases List.mem_append.mp hr with hr | hr
    · obtain ⟨i, hi, hr⟩ := h.id r hr
      exact ⟨i, Nat.lt_succ_of_lt hi, hr⟩
    · rw [List.mem_singleton.mp hr]
      exact ⟨hashes.length, Nat.lt_succ_self _, hid⟩
  · rw [List.length_append, List.length_singleton] at hi
    rcases Nat.lt_succ_iff_lt_or_eq.mp hi with hi | rfl
    · obtain ⟨r, hr, hri⟩ := h.row i hi
      exact ⟨r, List.mem_append_left _ hr, hri⟩
    · exact ⟨row, List.mem_append_right _ List.mem_cons_self, hid⟩

end FlopOffice.Technocore
