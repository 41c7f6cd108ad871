/-
# FlopOffice.Technocore.LedgerIntegrity — whether the ledger verifies after a publication.

The hash of a record is made from the values of its activity, and the verifier makes it again from what the
table holds. These are the same bytes for NULL, integers and text, but a bool is written `true` into the
hash and stored as 1.

`LedgerRun` is what holds after any program: every record it appended has its row, and a linked ledger whose
positions are numbers is still linked if each of these rows was stored as it was hashed. `ledger_intact_iff`
is the publication: all its values are plain, except the `seq` of the server, and `Publishes` says from its
inputs when it comes to store one that is a bool. A ledger with a text or a blob for a position is broken by
the first row that is appended to it, and `Writes` says from the inputs when there is one.
-/
import FlopOffice.Proof.Tamper
import FlopOffice.Technocore.PublishOutcome

namespace FlopOffice.Technocore

open FlopOffice.Identity FlopOffice.Lib FlopOffice.Proof FlopOffice.Python FlopOffice.Storage

/-! ## A record and its row -/

section Rows

variable [PyRuntime]

/-- The values of a record, as they were hashed. -/
def Appended.hashed (r : Appended) (metaText : Option PyStr) : Row :=
  activityRow r.1 metaText r.2.activityId r.2.recordedAt r.2.chainIndex r.2.prevHash

/-- The row that a record was stored as. -/
def Appended.StoredAs (r : Appended) (row : ActivityRow) : Prop :=
  ∃ metaText, metaJson r.1 = .ok metaText ∧ computeEntryHash (r.hashed metaText) = .ok r.2.entryHash ∧
    ∀ c, bindValue (Function.update (r.hashed metaText) .entryHash (.str r.2.entryHash) c) = .ok (row c)

/-- The row gives the hash that it carries. -/
def Appended.StoredAsHashed (r : Appended) : Prop :=
  ∀ row, r.StoredAs row → computeEntryHash row.read = .ok r.2.entryHash

/-- There is one such row. -/
theorem Appended.StoredAs.unique {r : Appended} {row row' : ActivityRow} (h : r.StoredAs row)
    (h' : r.StoredAs row') : row = row' := by
  obtain ⟨metaText, hmeta, -, hbind⟩ := h
  obtain ⟨metaText', hmeta', -, hbind'⟩ := h'
  rw [hmeta] at hmeta'
  cases hmeta'
  refine funext fun c => ?_
  have hc := hbind c
  rw [hbind' c] at hc
  exact (Except.ok.inj hc).symm

theorem Appended.StoredAs.entryHash {r : Appended} {row : ActivityRow} (h : r.StoredAs row) :
    row .entryHash = .text r.2.entryHash := by
  obtain ⟨metaText, -, -, hbind⟩ := h
  have hc := hbind .entryHash
  rw [Function.update_self] at hc
  exact (bindValue_str.mp hc).2

/-- The activity with the integers that its bools count as. -/
def counted (a : Activity) : Activity :=
  { a with
    tcSeq := a.tcSeq.map fun n => .int n.toInt
    tcNonce := a.tcNonce.map fun n => .int n.toInt }

omit [PyRuntime] in
theorem bindValue_counted (n : Option PyInt) :
    bindValue (intScalar (n.map fun n => .int n.toInt)) = bindValue (intScalar n) := by
  rcases n with - | i | b
  · rfl
  · rfl
  · cases b <;> rfl

omit [PyRuntime] in
/-- **A row reads as the integers its bools count as.** -/
theorem read_counted {a : Activity} {metaText : Option PyStr} {id at_ prev hash : PyStr} {index : Int}
    {row : ActivityRow} (h : ∀ c, bindValue (Function.update (activityRow a metaText id at_ index (.str prev))
      .entryHash (.str hash) c) = .ok (row c)) :
    ∀ c ∈ CHAINED_FIELDS, row.read c = activityRow (counted a) metaText id at_ index (.str prev) c := by
  intro c hc
  have hplain : ∀ n : Option PyInt, PlainInt (n.map fun n => .int n.toInt) := by
    rintro (- | n) b hb
    · exact absurd hb.symm (Option.some_ne_none _)
    · exact PyInt.noConfusion (Option.some.inj hb)
  have hbound : bindValue (Function.update (activityRow (counted a) metaText id at_ index (.str prev))
      .entryHash (.str hash) c) = .ok (row c) := by
    rw [← h c, Function.update_of_ne (mem_CHAINED_FIELDS.mp hc),
      Function.update_of_ne (mem_CHAINED_FIELDS.mp hc)]
    cases c with
    | tcSeq => exact bindValue_counted a.tcSeq
    | tcNonce => exact bindValue_counted a.tcNonce
    | _ => rfl
  have hread := bindValue_roundtrip (activityRow_faithful ⟨hplain a.tcSeq, hplain a.tcNonce⟩ c) hbound
  rwa [Function.update_of_ne (mem_CHAINED_FIELDS.mp hc)] at hread

/-- Plain integers are stored as they were hashed. -/
theorem Appended.storedAsHashed_of_plain {r : Appended} (hplain : r.1.PlainInts) {prev : PyStr}
    (hprev : r.2.prevHash = .str prev) : r.StoredAsHashed := by
  rintro row ⟨metaText, -, hhash, hbind⟩
  rw [← hhash]
  unfold Appended.hashed at hbind ⊢
  rw [hprev] at hbind ⊢
  refine computeEntryHash_congr fun c hc => ?_
  have hread := bindValue_roundtrip (activityRow_faithful hplain c) (hbind c)
  rwa [Function.update_of_ne (mem_CHAINED_FIELDS.mp hc)] at hread

/-- **An append to a linked table** gives a row for its record. Where the positions are numbers it leaves the
table linked if that row is stored as it was hashed; elsewhere the row sorts before one with a smaller
position. -/
theorem appendBlock_stored {a : Activity} {metaText : Option PyStr} {id at_ : PyStr} {db db' : Database}
    {record : LedgerRecord} (hjson : metaJson a = .ok metaText)
    (h : (appendBlock a metaText id at_).run db = .ok (record, db')) :
    (∃ row ∈ db'.activities, Appended.StoredAs (a, record) row) ∧
      (Chained db.activities → Numbered db.activities → a.PlainInts ∨ Appended.StoredAsHashed (a, record) →
        Chained db'.activities ∧ Numbered db'.activities) ∧
      (Chained db.activities → ¬ Numbered db.activities → Outranked db'.activities) := by
  obtain ⟨index, prev, hash, row, hlink, -, hhash, hbind, -, rfl, rfl⟩ := appendBlock_run_eq_ok.mp h
  have hstored : Appended.StoredAs (a, ⟨id, index, prev, hash, at_⟩) row := ⟨metaText, hjson, hhash, hbind⟩
  have hindex : row .chainIndex = .integer index := bindValue_int_eq (hbind .chainIndex)
  refine ⟨⟨row, List.mem_append_right _ List.mem_cons_self, hstored⟩, fun hs hnumbered hkept => ?_,
    fun hs hnumbered => ?_⟩
  · obtain ⟨p, hlink', htip⟩ := hs.nextLink
    rw [hlink'] at hlink
    cases hlink
    have hown : Appended.StoredAsHashed (a, ⟨id, db.activities.length, .str p, hash, at_⟩) :=
      hkept.elim (fun hplain => Appended.storedAsHashed_of_plain hplain rfl) fun h => h
    have hprev : row .prevHash = .text p := (bindValue_str.mp (hbind .prevHash)).2
    refine ⟨(hs.concat hnumbered hindex ?_ (hown row hstored) ?_).1, fun r hr => ?_⟩
    · rw [htip, ActivityRow.read, hprev]
      rfl
    · rw [ActivityRow.read, hstored.entryHash]
      rfl
    · rcases List.mem_append.mp hr with hr | hr
      · exact hnumbered r hr
      · rw [List.mem_singleton.mp hr, hindex]
        rfl
  · obtain ⟨p, hlink', -⟩ := hs.nextLink
    rw [hlink'] at hlink
    cases hlink
    exact hs.outranked hnumbered hindex

end Rows

/-! ## What every program keeps -/

section Runs

variable [PyRuntime] {M : Mode}

/-- The records among events. -/
def records (events : List Event) : List Appended := events.filterMap Event.appended?

omit [PyRuntime] in
theorem records_append (events events' : List Event) :
    records (events ++ events') = records events ++ records events' := List.filterMap_append

/-- **From `w` to `w'`**: the records that were appended have their rows. If the positions were numbers, the
table is linked if each of the records is plain, or was stored as it was hashed; if not, one record is too
many. -/
structure LedgerRun (w w' : World) (events : List Event) : Prop where
  trace : w'.trace = w.trace ++ events
  stored : ∀ r ∈ records events, ∃ row ∈ w'.db.activities, r.StoredAs row
  unchanged : records events = [] → w'.db.activities = w.db.activities
  linked : Numbered w.db.activities → (∀ r ∈ records events, r.1.PlainInts ∨ r.StoredAsHashed) →
    Chained w'.db.activities ∧ Numbered w'.db.activities
  outranked : ¬ Numbered w.db.activities → records events ≠ [] → Outranked w'.db.activities

variable {w w₁ w₂ : World} {events : List Event}

/-- Events without a record, and no write to the table. -/
theorem LedgerRun.quiet (h : LedgerRun w w₁ events) {more : List Event}
    (htrace : w₂.trace = w₁.trace ++ more) (hnone : records more = [])
    (hdb : w₂.db.activities = w₁.db.activities) : LedgerRun w w₂ (events ++ more) := by
  have hrecords : records (events ++ more) = records events := by
    rw [records_append, hnone, List.append_nil]
  refine ⟨?_, ?_, ?_, ?_, ?_⟩
  · rw [htrace, h.trace, List.append_assoc]
  · rw [hrecords, hdb]
    exact h.stored
  · rw [hrecords, hdb]
    exact h.unchanged
  · rw [hrecords, hdb]
    exact h.linked
  · rw [hrecords, hdb]
    exact h.outranked

/-- One more record. -/
theorem LedgerRun.append (hs : Chained w.db.activities) (h : LedgerRun w w₁ events) {a : Activity}
    {metaText : Option PyStr} {id at_ : PyStr} {record : LedgerRecord} {db : Database}
    (hjson : metaJson a = .ok metaText)
    (hrun : (appendBlock a metaText id at_).run w₁.db = .ok (record, db)) :
    LedgerRun w { w₁ with db := db, trace := w₁.trace ++ [.appended a record] }
      (events ++ [.appended a record]) := by
  obtain ⟨hstored, hlinked, houtranked⟩ := appendBlock_stored hjson hrun
  obtain ⟨-, hsub⟩ := committed_of_append hrun
  have hrecords : records (events ++ [.appended a record]) = records events ++ [(a, record)] :=
    records_append _ _
  refine ⟨?_, ?_, ?_, ?_, ?_⟩
  · show w₁.trace ++ _ = _
    rw [h.trace, List.append_assoc]
  · rw [hrecords]
    intro r hr
    rcases List.mem_append.mp hr with hr | hr
    · obtain ⟨row, hrow, hstored⟩ := h.stored r hr
      exact ⟨row, hsub hrow, hstored⟩
    · rw [List.mem_singleton.mp hr]
      exact hstored
  · rw [hrecords]
    exact fun hnil => absurd hnil (List.append_ne_nil_of_right_ne_nil _ (List.cons_ne_nil _ _))
  · rw [hrecords]
    intro hnumbered hkept
    obtain ⟨hchained, hnumbered'⟩ := h.linked hnumbered fun r hr => hkept r (List.mem_append_left _ hr)
    exact hlinked hchained hnumbered' (hkept _ (List.mem_append_right _ List.mem_cons_self))
  · rw [hrecords]
    intro hnumbered _
    by_cases hfirst : records events = []
    · have hsame := h.unchanged hfirst
      rw [← hsame] at hs hnumbered
      exact houtranked hs hnumbered
    · exact (h.outranked hnumbered hfirst).mono hsub

/-- An append alone leaves the database as it is, or runs its transaction. -/
theorem appendAlone_cases (call : AppendCall) (db : Database) :
    (∃ e, appendAlone call db = (.error e, db)) ∨ ∃ metaText record db',
      metaJson call.activity = .ok metaText ∧
      (appendBlock call.activity metaText (uuid4 call.uuidBits) call.now.isoformat).run db =
        .ok (record, db') ∧ appendAlone call db = (.ok record, db') := by
  unfold appendAlone append
  cases hprepare : prepare call.activity with
  | error e => exact Or.inl ⟨e, rfl⟩
  | ok metaText =>
    dsimp only
    cases hrun : (appendBlock call.activity metaText (uuid4 call.uuidBits) call.now.isoformat).run db with
    | error e => exact Or.inl ⟨e, rfl⟩
    | ok out => exact Or.inr ⟨metaText, out.1, out.2, (prepare_eq_ok.mp hprepare).2.1, hrun, rfl⟩

/-- **What one operation does.** -/
theorem LedgerRun.step [PyBuiltins] (hM : M.Alone) (hs : Chained w.db.activities) (h : LedgerRun w w₁ events)
    {op : Op} {r : Except Exc (Ans op)} (hop : answers M w₁ op r w₂) :
    ∃ more, LedgerRun w w₂ (events ++ more) := by
  have hstill : ∀ {w₂ : World}, w₂.trace = w₁.trace → w₂.db.activities = w₁.db.activities →
      ∃ more, LedgerRun w w₂ (events ++ more) := fun htrace hdb =>
    ⟨[], h.quiet (htrace.trans (List.append_nil _).symm) rfl hdb⟩
  cases op with
  | environ name =>
    obtain ⟨-, rfl⟩ := hop
    exact hstill rfl rfl
  | acquire =>
    obtain ⟨b, rfl, -⟩ := hop
    exact hstill rfl rfl
  | get url =>
    obtain ⟨rfl, -⟩ := hop
    exact ⟨_, h.quiet rfl rfl rfl⟩
  | newGate gate =>
    obtain ⟨-, rfl⟩ := hop
    exact hstill rfl rfl
  | consume i host write =>
    obtain ⟨gate, -, -, rfl⟩ := hop
    exact hstill rfl rfl
  | close i =>
    obtain ⟨-, rfl⟩ := hop
    exact hstill rfl rfl
  | utcNow =>
    obtain ⟨rfl, -⟩ := hop
    exact hstill rfl rfl
  | sign capability room nonce text =>
    obtain ⟨rfl, -⟩ := hop
    exact ⟨_, h.quiet rfl rfl rfl⟩
  | current agentDid scope =>
    obtain ⟨db, hdb, -, rfl⟩ := hop
    obtain rfl := hM _ _ hdb
    exact hstill rfl rfl
  | reserve agentDid scope floor =>
    obtain ⟨db, hdb, ⟨-, rfl⟩ | ⟨-, -, rfl⟩⟩ := hop
    · obtain rfl := hM _ _ hdb
      exact hstill rfl (reserveAlone_activities agentDid scope floor w₁.db)
    · obtain rfl := hM _ _ hdb
      exact hstill rfl rfl
  | append a =>
    obtain ⟨db, hdb, ⟨bits, now, -, -, rfl⟩ | ⟨-, -, rfl⟩⟩ := hop
    · obtain rfl := hM _ _ hdb
      rcases appendAlone_cases ⟨a, bits, now⟩ w₁.db with
        ⟨e, halone⟩ | ⟨metaText, record, db', hjson, hrun, halone⟩
      · rw [halone]
        exact hstill (List.append_nil _) rfl
      · rw [halone]
        exact ⟨_, h.append hs hjson hrun⟩
    · obtain rfl := hM _ _ hdb
      exact hstill rfl rfl

/-- **What a run does**, whatever the program. -/
theorem LedgerRun.of_exec [PyBuiltins] {α : Type} {p : Prog α} {r : Except Exc α} (hM : M.Alone)
    (hs : Chained w.db.activities) (h : Proc.Exec (answers M) p w r w₁) :
    ∃ events, LedgerRun w w₁ events := by
  have hstart : LedgerRun w w [] := ⟨(List.append_nil _).symm, fun r hr => absurd hr List.not_mem_nil,
    fun _ => rfl, fun hnumbered _ => ⟨hs, hnumbered⟩, fun _ hne => absurd rfl hne⟩
  refine Proc.Steps.inv (J := fun w₂ => ∃ events, LedgerRun w w₂ events) ?_ h ⟨[], hstart⟩
  rintro s op r s' hop ⟨events, hrun⟩
  obtain ⟨more, hmore⟩ := hrun.step hM hs hop
  exact ⟨_, hmore⟩

end Runs

/-! ## The verifier's answer -/

section Verdict

variable [PyRuntime] {rows : List ActivityRow} {row : ActivityRow}

/-- `verify_chain` answers VALID, or EMPTY if there are no records. -/
def Verifies (rows : List ActivityRow) : Prop :=
  ∃ res, verifyChain rows = .ok res ∧ res.status = if rows = [] then .EMPTY else .VALID

/-- That is: if and only if the records are linked. -/
theorem verifies_iff : Verifies rows ↔ Chained rows := by
  by_cases hne : rows = []
  · subst hne
    exact iff_of_true ⟨_, verifyChain_empty, rfl⟩ trivial
  · unfold Verifies
    rw [if_neg hne]
    constructor
    · rintro ⟨res, hres, hstatus⟩
      exact (verifyChain_valid_iff.mp ⟨hres, hstatus⟩).2.1
    · exact fun h => ⟨_, verifyChain_of_chained h hne, rfl⟩

/-- A record of a linked table carries its own hash, and links to a text. -/
theorem own_of_chained (h : Chained rows) (hr : row ∈ rows) :
    (∀ hash, row .entryHash = .text hash → computeEntryHash row.read = .ok hash) ∧
      ∃ prev, row.read .prevHash = .str prev := by
  have hmem := (orderByChainIndex_perm rows).mem_iff.mpr hr
  constructor
  · intro hash hentry
    have hdigest := ChainView.Linked.digest _ h hmem
    have hcarried : ledgerView.entry row = some (.str hash) := by
      show some (row .entryHash).toScalar = _
      rw [hentry]
      rfl
    rw [hcarried] at hdigest
    exact (computeEntryHash_chained _).symm.trans (ledgerView_hash_eq.mp hdigest)
  · obtain ⟨before, after, hsplit⟩ := List.append_of_mem hmem
    unfold Chained at h
    rw [hsplit] at h
    obtain ⟨hbefore, -, hprev, -⟩ := (ChainView.linked_append _).mp h
    obtain ⟨last, htip, -⟩ := verifyLoop_append hbefore []
    rw [htip] at hprev
    exact ⟨last, Option.some.inj hprev⟩

/-- A collision of SHA-256: what a record was hashed as and what its row is written as are two byte strings
with one digest. -/
def Appended.Collides (r : Appended) (row : ActivityRow) : Prop :=
  ∃ metaText data data', metaJson r.1 = .ok metaText ∧ canonicalBytes (r.hashed metaText) = .ok data ∧
    canonicalBytes row.read = .ok data' ∧ data ≠ data' ∧ sha256 data = sha256 data'

omit [PyRuntime] in
/-- What is written is read as something that can be written. -/
theorem written_of_bind {x : Scalar} {v : SqlValue} (hx : Written x) (h : bindValue x = .ok v) :
    Written v.toScalar := by
  cases x with
  | none | bool =>
    cases h
    trivial
  | int i =>
    rw [bindValue_int_eq h]
    trivial
  | str s =>
    rw [(bindValue_str.mp h).2]
    trivial
  | float | bytes => exact hx.elim

omit [PyRuntime] in
/-- Only a text is stored as one. -/
theorem str_of_bind {x : Scalar} {v : SqlValue} {s : PyStr} (h : bindValue x = .ok v)
    (hv : v.toScalar = .str s) : x = .str s := by
  have htext : v = .text s := SqlValue.toScalar_injective hv
  subst htext
  cases x with
  | none | bool | bytes => cases h
  | int i => cases bindValue_int_eq h
  | float f => cases f <;> cases h
  | str t =>
    obtain ⟨-, ht⟩ := bindValue_str.mp h
    cases ht
    rfl

/-- **A bool is not stored as it was hashed**: where the table verifies all the same, two byte strings have
one digest. -/
theorem collides_of_verifies {r : Appended} (h : Verifies rows) (hr : row ∈ rows) (hstored : r.StoredAs row)
    {b : Bool} (hseq : r.1.tcSeq = some (.bool b)) : r.Collides row := by
  obtain ⟨hown, prev, hprev⟩ := own_of_chained (verifies_iff.mp h) hr
  have hentry := hstored.entryHash
  obtain ⟨metaText, hjson, hhash, hbind⟩ := hstored
  obtain ⟨data, hdata, hdigest⟩ := computeEntryHash_eq_ok.mp hhash
  obtain ⟨data', hdata', hdigest'⟩ := computeEntryHash_eq_ok.mp (hown _ hentry)
  refine ⟨metaText, data, data', hjson, hdata, hdata', ?_,
    sha256_eq_of_hexdigest_eq (hdigest.trans hdigest'.symm)⟩
  rintro rfl
  -- the two rows would agree on the bool
  have hbound : ∀ c ∈ CHAINED_FIELDS, bindValue (r.hashed metaText c) = .ok (row c) := by
    intro c hc
    rw [← hbind c, Function.update_of_ne (mem_CHAINED_FIELDS.mp hc)]
  have hlink : r.2.prevHash = .str prev := str_of_bind (hbound .prevHash (by decide)) hprev
  have hwritten : ∀ c, Written (r.hashed metaText c) := by
    intro c
    rw [Appended.hashed, hlink]
    exact written_activityRow c
  have hagree := canonicalBytes_injective_of_written (fun c _ => hwritten c)
    (fun c hc => written_of_bind (hwritten c) (hbound c hc)) hdata hdata' .tcSeq (by decide)
  have hbool : r.hashed metaText .tcSeq = .bool b := by
    show intScalar r.1.tcSeq = _
    rw [hseq]
    rfl
  have hint := hbound .tcSeq (by decide)
  rw [hbool] at hagree hint
  replace hagree : Scalar.bool b = (row .tcSeq).toScalar := hagree
  rw [← Except.ok.inj hint] at hagree
  exact Scalar.noConfusion hagree

theorem storedAsHashed_of_collides {r : Appended} (hstored : r.StoredAs row) (h : r.Collides row) :
    r.StoredAsHashed := by
  intro row' hstored'
  obtain rfl := hstored.unique hstored'
  obtain ⟨metaText, data, data', hjson, hdata, hdata', -, hsame⟩ := h
  obtain ⟨metaText', hjson', hhash, -⟩ := hstored
  rw [hjson] at hjson'
  cases hjson'
  obtain ⟨data'', hdata'', hdigest⟩ := computeEntryHash_eq_ok.mp hhash
  rw [hdata] at hdata''
  cases hdata''
  refine computeEntryHash_eq_ok.mpr ⟨data', hdata', ?_⟩
  rw [← hdigest, hexdigest, hexdigest, hsame]

end Verdict

/-! ## The publication -/

section Publication

variable [PyRuntime] [PyBuiltins] [Ed25519] {client : TechnocoreClient} {proof : AnnouncementProof}
  {s : ProofStamps} {w w₁ w₂ w' : World} {rows : List Appended} {events : List Event}

/-- The result row of a publication. -/
def AnnouncementPublishResult.resultRow (published : AnnouncementPublishResult) (t : PyStr) : Appended :=
  (resultActivity published.preparation true PUBLISHED (some published.responseHash) published.serverSeq
    none t, published.publishRecord)

/-- The server reports success, with a bool for `seq`, in a response that can be hashed. -/
def AnswersBool (server : Except GetError Response) : Prop :=
  ∃ v b, TechnocoreClient.serverResult server = .ok v ∧ ResponseHashable v ∧
    v.get (py "ok") = .leaf (.bool true) ∧ v.get (py "seq") = .leaf (.bool b)

/-- **What publishes a bool**, on the inputs: the publication comes to its send, the client is public and its
bucket grants the request, and the server gives a bool. -/
structure Publishes (capability : CapabilitySigner) (client : TechnocoreClient) (room sha : PyStr)
    (confirm : Bool) (w : World) : Prop where
  starts : Starts capability client room sha confirm w.db
  client_public : client.isPublic = true
  granted : ∃ b, w.writes.acquire w.clock = (.granted, b)
  answers : AnswersBool w.server

/-- What a publication that returns has appended: plain records, and then its result, with the `seq` the
server gave. -/
structure PublishedBy (w : World) (published : AnnouncementPublishResult) (events : List Event) : Prop where
  rows : ∃ before t, (∀ r ∈ before, r.1.PlainInts) ∧
    records events = before ++ [published.resultRow t]
  nonce : PlainInt (some published.preparation.proof.nonce)
  response : ∃ v, TechnocoreClient.serverResult w.server = .ok v ∧ ResponseHashable v ∧
    v.get (py "ok") = .leaf (.bool true) ∧ asInt (v.get (py "seq")) = published.serverSeq

/-- A call that raises has appended plain records, and one that returns has published. Where nobody else writes,
whether a record is appended, and which of the two happens with a bool, is settled by the inputs. -/
def PublicationSettled (M : Mode) (capability : CapabilitySigner) (client : TechnocoreClient) (room sha : PyStr)
    (confirm : Bool) (w : World) (r : Except Exc AnnouncementPublishResult) (w' : World) : Prop :=
  ∀ events, w'.trace = w.trace ++ events →
    (M.Alone → (records events ≠ [] → Writes capability room sha confirm w.db) ∧
      (M.calm → Writes capability room sha confirm w.db → records events ≠ [])) ∧
    match r with
    | .error _ => (∀ r ∈ records events, r.1.PlainInts) ∧
      (M.Alone → M.calm → ¬ Publishes capability client room sha confirm w)
    | .ok published => PublishedBy w published events ∧
      (M.Alone → AnswersBool w.server → Publishes capability client room sha confirm w)

omit [PyRuntime] [PyBuiltins] [Ed25519] in
theorem plainInt_none : PlainInt none := fun b => (Option.some_ne_none (PyInt.bool b)).symm

omit [PyRuntime] [PyBuiltins] [Ed25519] in
theorem plainInts_fourRows (hnonce : PlainInt (some proof.nonce)) :
    ∀ r ∈ fourRows proof announcementTaskId s, r.1.PlainInts := by
  intro r hr
  simp only [fourRows, List.mem_cons, List.not_mem_nil, or_false] at hr
  rcases hr with rfl | rfl | rfl | rfl
  · exact ⟨plainInt_none, hnonce⟩
  · exact ⟨plainInt_none, hnonce⟩
  · exact ⟨plainInt_none, hnonce⟩
  · exact ⟨plainInt_none, hnonce⟩

omit [PyRuntime] [PyBuiltins] [Ed25519] in
theorem records_quiet {quiet : List Event} (h : ∀ e ∈ quiet, e.appended? = none) : records quiet = [] :=
  List.filterMap_eq_nil_iff.mpr h

omit [PyRuntime] [PyBuiltins] [Ed25519] in
theorem records_rows (rows : List Appended) : records (rows.map Appended.event) = rows := by
  unfold records
  rw [List.filterMap_map]
  exact List.filterMap_some

omit [PyRuntime] [PyBuiltins] [Ed25519] in
/-- The records of a call that has sent. -/
theorem Sent.records (h : Sent proof s rows w w') (hevents : w'.trace = w.trace ++ events) :
    Technocore.records events = fourRows proof announcementTaskId s ++ rows := by
  obtain ⟨signed, urls, hsigned, hurls, htrace⟩ := h.trace
  rw [htrace, List.append_cancel_left_eq] at hevents
  rw [← hevents, records_append, records_append, records_append, records_quiet hsigned, records_rows,
    records_quiet hurls, records_rows]
  rfl

/-- What the server said is what comes back. -/
theorem serverResult_of_answered {write : SignedWrite} {gate : Option Nat} {response : PyVal}
    {urls : List PyStr} (h : TechnocoreClient.SendExit client write gate w (.ok response) urls) :
    TechnocoreClient.serverResult w.server = .ok response := by
  generalize hr : (Except.ok response : Except Exc PyVal) = r at h ⊢
  cases h with
  | unverifiable | unverified | refused | limited | unencodable => cases hr
  | sent => rfl

omit [PyRuntime] [PyBuiltins] [Ed25519] in
/-- An `int` that is not plain is a bool. -/
theorem asInt_bool {v : PyVal} {b : Bool} (h : asInt v = some (.bool b)) : v = .leaf (.bool b) := by
  unfold asInt at h
  split at h
  · cases h
  · cases h
    rfl
  · cases h

variable {M : Mode} {capability : CapabilitySigner} {room sha : PyStr} {confirm : Bool}
  {payload : Bytes} {object : OneTimePublicWriteGate}

/-- **How the send of a prepared message ends**, where nothing is in its way: with what the server answers;
and what is answered was granted to a public client. -/
theorem Prepared.send_answers (h : Prepared capability client room sha confirm proof payload object)
    {gates : List OneTimePublicWriteGate} (hw : w.gates = gates ++ [object]) {blockedId : PyStr}
    {db : Database} (hrec : Recorded proof blockedId db) {r : Except Exc PyVal} {urls : List PyStr}
    (hexit : TechnocoreClient.SendExit client (proofWrite proof payload) (some gates.length) w r urls) :
    (client.isPublic = true → (∃ b, w.writes.acquire w.clock = (.granted, b)) →
      r = TechnocoreClient.serverResult w.server) ∧
    ∀ v, r = .ok v → client.isPublic = true ∧ ∃ b, w.writes.acquire w.clock = (.granted, b) := by
  cases hexit with
  | unverifiable hv | unverified hv =>
    rw [h.verifies] at hv
    cases hv
  | refused hv hrefused =>
    refine ⟨fun hpublic _ => ?_, fun v hr => by cases hr⟩
    rw [h.guard_public hpublic hw] at hrefused
    cases hrefused
  | limited hv hpassed hlimited =>
    refine ⟨fun _ hgranted => ?_, fun v hr => by cases hr⟩
    obtain ⟨b, hgranted⟩ := hgranted
    rw [hlimited] at hgranted
    cases hgranted
  | unencodable hv hpassed hgranted hunencodable =>
    obtain ⟨path, hpath⟩ := h.path hrec
    rw [hpath] at hunencodable
    cases hunencodable
  | @sent b path hv hpassed hgranted hpath =>
    refine ⟨fun _ _ => rfl, fun v _ => ⟨?_, b, hgranted⟩⟩
    rcases h.guard hw with ⟨-, e, -, he⟩ | ⟨hpublic, -⟩
    · rw [he] at hpassed
      cases hpassed
    · exact hpublic

omit [PyRuntime] in
theorem Prepared.plainInt_nonce (h : Prepared capability client room sha confirm proof payload object) :
    PlainInt (some proof.nonce) := by
  obtain ⟨chosen, hbuilt⟩ := h.built
  rw [hbuilt.nonce_eq]
  exact fun b hb => PyInt.noConfusion (Option.some.inj hb)

/-- A call that has sent has written its four rows. -/
theorem Sent.wrote (hsent : Sent proof s rows w w')
    (hstarts : M.Alone → Starts capability client room sha confirm w.db)
    (hevents : w'.trace = w.trace ++ events) (hA : M.Alone) :
    (Technocore.records events ≠ [] → Writes capability room sha confirm w.db) ∧
      (M.calm → Writes capability room sha confirm w.db → Technocore.records events ≠ []) := by
  refine ⟨fun _ => (hstarts hA).toWrites, fun _ _ => ?_⟩
  rw [hsent.records hevents]
  exact List.cons_ne_nil _ _

/-- A call that has sent and raises has added rows without a bool, and had none to publish. -/
theorem Prepared.settled_of_raised (h : Prepared capability client room sha confirm proof payload object)
    (hstarts : M.Alone → Starts capability client room sha confirm w.db) (hsent : Sent proof s rows w w')
    (hrows : ∀ r ∈ rows, r.1.PlainInts) (hno : M.calm → ¬ Publishes capability client room sha confirm w)
    {e : Exc} : PublicationSettled M capability client room sha confirm w (.error e) w' := by
  intro events hevents
  refine ⟨hsent.wrote hstarts hevents, fun r hr => ?_, fun _ => hno⟩
  rw [hsent.records hevents] at hr
  exact (List.mem_append.mp hr).elim (plainInts_fourRows h.plainInt_nonce r) (hrows r)

/-- **From the send on.** -/
theorem Prepared.settles (hM : M.Grows)
    (h : Prepared capability client room sha confirm proof payload object) (hquiet : Quiet w w₁)
    (hfour : Added w₁ w₂ (fourRows proof announcementTaskId s))
    (hstarts : M.Alone → Starts capability client room sha confirm w.db) :
    Proc.Safe (answers M) (fun _ => True) (PublicationSettled M capability client room sha confirm w)
      (sendPrepared client ⟨proof, s.records⟩ (proofWrite proof payload) w₂.gates.length)
      { w₂ with gates := w₂.gates ++ [object] } := by
  have hrec := recorded_of_added hfour
  have hraised : ∀ {gate urls w₃ w' rows e}, TechnocoreClient.SendEnd gate urls
      { w₂ with gates := w₂.gates ++ [object] } w₃ → Added w₃ w' rows → (∀ r ∈ rows, r.1.PlainInts) →
      (M.calm → ¬ Publishes capability client room sha confirm w) →
      PublicationSettled M capability client room sha confirm w (.error e) w' :=
    fun hend hadded hrows hno =>
      h.settled_of_raised hstarts (.of_added hquiet hfour hend hadded) hrows hno
  -- the bucket and the server are as they were
  obtain ⟨hwrites, hclock, hserver⟩ := hquiet.surroundings hfour
  have hanswers : ∀ {r urls}, TechnocoreClient.SendExit client (proofWrite proof payload)
      (some w₂.gates.length) { w₂ with gates := w₂.gates ++ [object] } r urls →
      (client.isPublic = true → (∃ b, w.writes.acquire w.clock = (.granted, b)) →
        r = TechnocoreClient.serverResult w.server) ∧
      ∀ v, r = .ok v → client.isPublic = true ∧ ∃ b, w.writes.acquire w.clock = (.granted, b) := by
    intro r urls hexit
    have hends := h.send_answers rfl hrec hexit
    dsimp only at hends
    rwa [hwrites, hclock, hserver] at hends
  have hnone : ∀ r ∈ ([] : List Appended), r.1.PlainInts := fun r hr => absurd hr List.not_mem_nil
  have hone : ∀ {delivered status hash error t record}, ∀ r ∈ [((resultActivity ⟨proof, s.records⟩ delivered
      status hash none error t, record) : Appended)], r.1.PlainInts := by
    intro delivered status hash error t record r hr
    rw [List.mem_singleton.mp hr]
    exact ⟨plainInt_none, h.plainInt_nonce⟩
  -- a send that raises had no answer
  have hunanswered : ∀ {e urls}, TechnocoreClient.SendExit client (proofWrite proof payload)
      (some w₂.gates.length) { w₂ with gates := w₂.gates ++ [object] } (.error e) urls →
      M.calm → ¬ Publishes capability client room sha confirm w := by
    intro e urls hexit _ hp
    obtain ⟨v, b, hv, -⟩ := hp.answers
    have hanswer := (hanswers hexit).1 hp.client_public hp.granted
    rw [hv] at hanswer
    cases hanswer
  refine safe_sendPrepared hM (fun _ _ => trivial)
    (fun e urls w' hexit hend _ => hraised hend (.refl w') hnone (hunanswered hexit))
    (fun e urls w' hexit hend _ => ⟨fun _ _ => trivial,
      fun t e' w'' h' _ => hraised hend h' hnone (hunanswered hexit),
      fun t record w'' h' => ⟨trivial, fun e' => hraised hend h' hone (hunanswered hexit)⟩⟩)
    fun response urls w' hexit hend => ?_
  have hanswer : TechnocoreClient.serverResult w.server = .ok response := by
    have hanswer := serverResult_of_answered hexit
    dsimp only at hanswer
    rwa [hserver] at hanswer
  -- what would be published is this response
  have hresponse : Publishes capability client room sha confirm w → ResponseHashable response ∧
      response.get (py "ok") = .leaf (.bool true) ∧ ∃ b, response.get (py "seq") = .leaf (.bool b) := by
    intro hp
    obtain ⟨v, b, hv, hhashable, hok, hseq⟩ := hp.answers
    rw [hanswer] at hv
    cases hv
    exact ⟨hhashable, hok, b, hseq⟩
  have hjson : response.isJson = true := (serverRecordable_iff_value hanswer).1
  refine safe_recordResponse hM (fun _ _ => trivial)
    (fun e hunhashed => hraised hend (.refl w') hnone fun _ hp => ?_)
    (fun hash _ hunexpected => ⟨fun t e w'' h' _ => hraised hend h' hnone fun _ hp => ?_,
      fun t record w'' h' => ⟨trivial, fun e => hraised hend h' hone fun _ hp => ?_⟩⟩)
    fun hash seq hhash hok hseq => ⟨fun t e w'' h' hrefused => hraised hend h' hnone fun hcalm hp => ?_,
      fun t record w'' h' => ⟨trivial, fun events hevents =>
        ⟨(Sent.of_added hquiet hfour hend h').wrote hstarts hevents, ?_, fun hA hbool => ?_⟩⟩⟩
  · obtain ⟨hash, hhash⟩ := (responseHash_isOk_iff hjson).mpr (hresponse hp).1
    rw [hhash] at hunhashed
    cases hunhashed
  · obtain ⟨-, hok, b, hseq⟩ := hresponse hp
    exact hunexpected (.bool b) hok (by rw [hseq]; rfl)
  · obtain ⟨-, hok, b, hseq⟩ := hresponse hp
    exact hunexpected (.bool b) hok (by rw [hseq]; rfl)
  · -- a bool fits, and the ledger takes the row
    obtain ⟨-, -, b, hbool⟩ := hresponse hp
    rw [hbool] at hseq
    cases hseq
    have hgrown : w₂.db.activities ⊆ w''.db.activities := by
      have hsub := h'.grown
      rwa [hend.db] at hsub
    refine hrefused hcalm (appendable_resultActivity (hrec.grow hgrown) h.plainText_hash plainText_status.1
      (fun s hs => ?_) (fun s hs => absurd hs.symm (Option.some_ne_none s)) fun n hn => ?_)
    · cases hs
      exact hexOf_of_responseHash hhash
    · cases hn
      cases b <;> decide
  · exact ⟨⟨_, t.isoformat, plainInts_fourRows h.plainInt_nonce,
      (Sent.of_added hquiet hfour hend h').records hevents⟩, h.plainInt_nonce,
      response, hanswer, (responseHash_isOk_iff hjson).mp ⟨hash, hhash⟩, hok, hseq⟩
  · obtain ⟨hpublic, hgranted⟩ := (hanswers hexit).2 response rfl
    exact ⟨hstarts hA, hpublic, hgranted, hbool⟩

/-- **What a publication comes to.** -/
theorem publicationSettled (hM : M.Grows) {r : Except Exc AnnouncementPublishResult}
    (h : Proc.Exec (answers M) (publishFirstAnnouncementOnce capability client room sha confirm) w r w') :
    PublicationSettled M capability client room sha confirm w r w' := by
  have hsafe : Proc.Safe (answers M) (fun _ => True) (PublicationSettled M capability client room sha confirm w)
      (publishFirstAnnouncementOnce capability client room sha confirm) w := by
    refine safe_publishFirstAnnouncementOnce hM (fun w' hquiet => ⟨trivial, fun e hno => ?_⟩)
      (fun w₁ w' chosen proof s n hquiet hbuilt hrows => ⟨trivial, fun e hno => ?_⟩)
      fun w₁ w' proof s payload object hquiet hfour hprepared hstarts =>
        hprepared.settles hM hquiet hfour hstarts
    · intro events hevents
      obtain ⟨signed, hsigned, htrace⟩ := hquiet.trace
      rw [htrace, List.append_cancel_left_eq] at hevents
      have hnone : records events = [] := by
        rw [← hevents]
        exact records_quiet fun e he => (hsigned e he).1
      rw [hnone]
      exact ⟨fun hA => ⟨fun hne => absurd rfl hne, fun hcalm hs => absurd hs ((hno hA).not_writes hcalm rfl)⟩,
        List.forall_mem_nil _, fun hA hcalm hp => (hno hA).not_starts hcalm hp.starts⟩
    · intro events hevents
      obtain ⟨signed, hsigned, htrace⟩ := hquiet.trace
      rw [hrows.trace, htrace, List.append_assoc, List.append_cancel_left_eq] at hevents
      have hwritten : records events = (fourRows proof announcementTaskId s).take n := by
        rw [← hevents, records_append, records_quiet fun e he => (hsigned e he).1, records_rows,
          List.nil_append]
      rw [hwritten]
      refine ⟨fun hA => ⟨fun hne => (hno hA).writes ?_, fun hcalm hs hnil => ?_⟩, fun r hr => ?_,
        fun hA hcalm hp => (hno hA).not_starts hcalm hp.starts⟩
      · rcases Nat.eq_zero_or_pos n with rfl | hpos
        · exact absurd rfl hne
        · exact hpos
      · have hzero := (List.take_eq_nil_iff.mp hnil).resolve_right (List.cons_ne_nil _ _)
        exact (hno hA).not_writes hcalm hzero hs
      · refine plainInts_fourRows ?_ r (List.mem_of_mem_take hr)
        rw [hbuilt.nonce_eq]
        exact fun b hb => PyInt.noConfusion (Option.some.inj hb)
  exact (hsafe.exec h).2

end Publication

/-! ## A `seq` that is a bool -/

section BoolSeq

attribute [local instance] asciiRuntime asciiBuiltins acceptAll

theorem calmMode_alone : calmMode.Alone := fun _ _ h => h

/-- `{"ok": true, "seq": true}` -/
def boolAnswer : PyVal := .record [(py "ok", .leaf (.bool true)), (py "seq", .leaf (.bool true))]

def boolAnswerHash : PyStr := py "798791f490439a879b5f29507e3e209e9a717398ed62bea9cf97e58b4cb03996"

/-- The bucket has a token, and the server gives a bool for `seq`. -/
def boolWorld : World :=
  { limitedWorld with
    writes := .oneToken
    server := .ok (.ofJson boolAnswer rfl) }

theorem boolWorld_verifies : Verifies boolWorld.db.activities := ⟨_, verifyChain_empty, rfl⟩

/-- The result row of the announcement. -/
def seqActivity (seq : PyInt) : Activity :=
  resultActivity ⟨announcementProof, announcementRecords⟩ true PUBLISHED (some boolAnswerHash) (some seq)
    none sampleTime

/-- What it is hashed as with `true`, and with 1. -/
def trueHash : PyStr := py "f54880eefdbe6c2a42a3737d30799636869065449d5094bc2f7fef6eac4c9f6a"

def oneHash : PyStr := py "502a0afcd1e54a28b2253bb2c2749574aa487cffcae28f9d9e16d68e816064b5"

theorem seqActivity_hashes : responseHash boolAnswer = .ok boolAnswerHash ∧
    callHash (sampleCall (seqActivity (.bool true)) 4) 4 (announcementHash 3) = .ok trueHash ∧
    callHash (sampleCall (seqActivity (.int 1)) 4) 4 (announcementHash 3) = .ok oneHash := by
  unfold responseHash callHash seqActivity announcementProof announcementRecords
  simp only [computeEntryHash_eq_packed, hexdigest_eq_packed]
  rw [show FIRST_ANNOUNCEMENT_SHA256 = _ from py_ofList _,
    show announcementPayloadHash = _ from py_ofList _, show announcementHash 3 = _ from py_ofList _,
    show boolAnswerHash = _ from py_ofList _, show trueHash = _ from py_ofList _,
    show oneHash = _ from py_ofList _]
  decide +kernel

/-- **The result is published**: the write goes out, and its row is not stored as it was hashed. -/
theorem bool_published : ∃ url published w', Proc.Exec (answers calmMode)
      (publishFirstAnnouncementOnce lobbySigner publicClient FIRST_ANNOUNCEMENT_ROOM
        FIRST_ANNOUNCEMENT_SHA256 true) boolWorld (.ok published) w' ∧
    published.serverSeq = some (.bool true) ∧ .sent url ∈ w'.trace ∧ ¬ Verifies w'.db.activities := by
  obtain ⟨payload, object, w₁, w₂, s, hprepared, hquiet, hfour, -, hstands, hpublish⟩ :=
    announcement_sends (w := boolWorld) rfl
  obtain ⟨hresponse, hhash, hone⟩ := seqActivity_hashes
  -- the bucket and the server are still as they were
  obtain ⟨hwrites, hclock, hserver⟩ := hquiet.surroundings hfour
  -- what is recorded so far
  have hrecorded : Recorded announcementProof (uuid4 3) w₂.db :=
    ⟨announcement_accepted.1, ⟨3, rfl⟩, hstands.row 3 (by decide)⟩
  -- the send
  have hgranted : (boolWorld.writes.acquire boolWorld.clock).1 = .granted := by decide +kernel
  obtain ⟨path, hpath⟩ := hprepared.path hrecorded
  have hexit : TechnocoreClient.SendExit publicClient (proofWrite announcementProof payload)
      (some w₂.gates.length) { w₂ with gates := w₂.gates ++ [object] } (.ok boolAnswer)
      [publicClient.baseUrl ++ path] := by
    have hanswer : TechnocoreClient.serverResult w₂.server = .ok boolAnswer := by
      rw [hserver]
      rfl
    rw [← hanswer]
    refine .sent (b := (boolWorld.writes.acquire boolWorld.clock).2) hprepared.verifies
      (hprepared.guard_public (by decide) rfl) ?_ hpath
    dsimp only
    rw [hwrites, hclock]
    exact Prod.ext hgranted rfl
  obtain ⟨w₃, hsend, hdb, -, htrace⟩ := TechnocoreClient.send_exec_db (M := calmMode) hexit
  dsimp only at hdb
  rw [← hdb] at hstands hrecorded
  -- its result
  have happendable : Appendable (seqActivity (.bool true)) w₃.db := by
    refine appendable_resultActivity (t := ⟨2026, 1, 1, 0, 0, 0⟩) hrecorded plainText_announcementHash
      plainText_status.1 (fun s hs => ?_) (fun s hs => absurd hs.symm (Option.some_ne_none s)) fun n hn => ?_
    · cases hs
      exact hexOf_of_responseHash hresponse
    · cases hn
      rfl
  obtain ⟨metaText, row, hjson, halone, hbind, -⟩ := hstands.append (sampleCall (seqActivity (.bool true)) 4)
    happendable rfl (by decide) (by decide) hhash
    (by simp [announcementHashes, announcementHash, List.range_succ, trueHash, py_inj])
  have hnow : Proc.Exec (answers calmMode) utcNow w₃ (.ok sampleTime) w₃ := Proc.exec_call ⟨rfl, _, rfl⟩
  have hlift : Proc.Exec (answers calmMode) (Proc.lift (responseHash boolAnswer) : Prog PyStr) w₃
      (.ok boolAnswerHash) w₃ := hresponse ▸ Proc.exec_lift
  have hresult : Proc.Exec (answers calmMode)
      (recordResponse ⟨announcementProof, announcementRecords⟩ boolAnswer) w₃ (.ok _) _ :=
    hlift.bind ((hnow.bind (ledgerAppend_exec rfl halone)).bind .refl)
  refine ⟨publicClient.baseUrl ++ path, _, _, hpublish _ _ (.bind (hsend.catch_ok) hresult), rfl, ?_,
    fun hverifies => ?_⟩
  · refine List.mem_append_left _ ?_
    rw [htrace]
    exact List.mem_append_right _ List.mem_cons_self
  dsimp only at hverifies
  have hmem : row ∈ w₃.db.activities ++ [row] := List.mem_append_right _ List.mem_cons_self
  -- it carries the hash with `true`, and gives the one with 1
  have hcarries : row .entryHash = .text trueHash := (bindValue_str.mp (hbind .entryHash)).2
  have hown := (own_of_chained (verifies_iff.mp hverifies) hmem).1 _ hcarries
  obtain ⟨metaText', hjson', hcomputed⟩ := bind_eq_ok.mp hone
  rw [show metaJson (sampleCall (seqActivity (.int 1)) 4).activity = .ok metaText from hjson] at hjson'
  cases hjson'
  rw [computeEntryHash_congr (read_counted hbind)] at hown
  have hsame : trueHash = oneHash := Except.ok.inj (hown.symm.trans hcomputed)
  simp [trueHash, oneHash, py_inj] at hsame

end BoolSeq

end FlopOffice.Technocore
