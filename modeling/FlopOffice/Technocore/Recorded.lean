/-
# FlopOffice.Technocore.Recorded — what the recording part of a call adds to the world.

The database is shared, and an append may fail at any time. What is left to say is what the call itself
adds: rows, one after the other, and with each the event of its commit. `Added w w' rows` is that
statement; it holds at every point of a program that only appends, so its rule is a rule of `Safe`.
-/
import FlopOffice.Technocore.Announcement

namespace FlopOffice.Technocore

open FlopOffice.Identity FlopOffice.Lib FlopOffice.Proof FlopOffice.Python FlopOffice.Storage

/-! ## Rows -/

/-- A row as it was appended: its activity and the record of it. -/
abbrev Appended := Activity × LedgerRecord

def Appended.event (r : Appended) : Event := .appended r.1 r.2

/-- The row `row` of the table is the one that `r` was committed as. -/
def Appended.IsRow (r : Appended) (row : ActivityRow) : Prop :=
  ∃ metaJson recordedAt index prev, ∀ c, c ≠ .entryHash →
    bindValue (activityRow r.1 metaJson r.2.activityId recordedAt index prev c) = .ok (row c)

/-- `r` is committed in `db`. -/
def Appended.CommittedIn (r : Appended) (db : Database) : Prop := ∃ row ∈ db.activities, r.IsRow row

theorem Appended.CommittedIn.mono {r : Appended} {db db' : Database} (h : r.CommittedIn db)
    (hsub : db.activities ⊆ db'.activities) : r.CommittedIn db' := by
  obtain ⟨row, hrow, hr⟩ := h
  exact ⟨row, hsub hrow, hr⟩

/-- An append that returns has committed its row, and dropped none. -/
theorem committed_of_append [PyRuntime] {a : Activity} {metaJson : Option PyStr} {id at_ : PyStr}
    {db db' : Database} {record : LedgerRecord}
    (h : (appendBlock a metaJson id at_).run db = .ok (record, db')) :
    Appended.CommittedIn (a, record) db' ∧ db.activities ⊆ db'.activities := by
  obtain ⟨index, prev, hash, r, -, -, -, hbind, -, rfl, rfl⟩ := appendBlock_run_eq_ok.mp h
  refine ⟨⟨r, List.mem_append_right _ List.mem_cons_self, metaJson, at_, index, prev, ?_⟩, ?_⟩
  · intro c hc
    rw [← hbind c, Function.update_of_ne hc]
  · exact List.subset_append_left _ _

/-! ## Worlds -/

/-- From `w` to `w'` exactly `rows` were appended, in this order, and nothing else was done. -/
structure Added [PyRuntime] (w w' : World) (rows : List Appended) : Prop where
  trace : w'.trace = w.trace ++ rows.map Appended.event
  frame : { w' with db := w.db, trace := w.trace } = w
  grown : w.db.activities ⊆ w'.db.activities
  prepared : ∀ r ∈ rows, ∃ metaText, prepare r.1 = .ok metaText
  ids : ∀ r ∈ rows, ∃ bits, r.2.activityId = uuid4 bits
  committed : ∀ r ∈ rows, r.CommittedIn w'.db

/-- The databases of a mode only grow. -/
def Mode.Grows (M : Mode) : Prop := ∀ db db', M.others db db' → db.activities ⊆ db'.activities

/-- Nobody else writes. -/
def Mode.Alone (M : Mode) : Prop := ∀ db db', M.others db db' → db' = db

theorem Mode.Alone.grows {M : Mode} (h : M.Alone) : M.Grows := by
  intro db db' hdb
  rw [h db db' hdb]
  exact List.Subset.refl _

section Added

variable [PyRuntime]

theorem Added.refl (w : World) : Added w w [] := by
  have hnone : ∀ {P : Appended → Prop}, ∀ r ∈ ([] : List Appended), P r :=
    fun r hr => absurd hr List.not_mem_nil
  refine ⟨?_, rfl, List.Subset.refl _, hnone, hnone, hnone⟩
  rw [List.map_nil, List.append_nil]

theorem Added.gates {w w' : World} {rows : List Appended} (h : Added w w' rows) :
    w'.gates = w.gates := by
  have hgates := congrArg World.gates h.frame
  exact hgates

/-- What was appended can be referred to. -/
theorem Added.referable {w w' : World} {rows : List Appended} (h : Added w w' rows) {r : Appended}
    (hr : r ∈ rows) : ∃ bits, r.2.activityId = uuid4 bits ∧
      ∃ row ∈ w'.db.activities, row .activityId = .text r.2.activityId := by
  obtain ⟨bits, hbits⟩ := h.ids r hr
  obtain ⟨row, hrow, metaJson, at_, index, prev, hbind⟩ := h.committed r hr
  exact ⟨bits, hbits, row, hrow, (bindValue_str.mp (hbind .activityId (by decide))).2⟩

/-- Others write to the database. -/
theorem Added.grow {w w' : World} {rows : List Appended} (h : Added w w' rows) {db : Database}
    (hsub : w'.db.activities ⊆ db.activities) : Added w { w' with db := db } rows :=
  ⟨h.trace, h.frame, fun _ hr => hsub (h.grown hr), h.prepared, h.ids,
    fun r hr => (h.committed r hr).mono hsub⟩

end Added

/-! ## Rules -/

section Rules

variable [PyRuntime] [PyBuiltins] {M : Mode} {w w₁ : World} {I : World → Prop} {rows : List Appended}

/-- **The rule of an append.** The call adds its row, or it raises and has added none; where the
database accepts writes, the second happens only to what is not appendable. -/
theorem safe_append_added {a : Activity} {Q : Except Exc LedgerRecord → World → Prop} (hM : M.Grows)
    (h : Added w w₁ rows) (hI : ∀ w', Added w w' rows → I w')
    (hraised : ∀ e w', Added w w' rows → (M.calm → ¬ Appendable a w'.db) → Q (.error e) w')
    (hadded : ∀ record w', Added w w' (rows ++ [(a, record)]) → I w' ∧ Q (.ok record) w') :
    Proc.Safe (answers M) I Q (ledgerAppend a) w₁ := by
  refine safe_ledgerAppend (hI w₁ h) (fun db e hdb hrefused => ?_) ?_
  · have hgrown := h.grow (hM _ _ hdb)
    exact ⟨hI _ hgrown, hraised e _ hgrown hrefused⟩
  · intro db db' bits now metaJson record hdb hprepare hrun w'
    obtain ⟨hcommitted, hsub⟩ := committed_of_append hrun
    have hmore : w₁.db.activities ⊆ db'.activities := fun row hrow => hsub (hM _ _ hdb hrow)
    refine hadded record w' ⟨?_, h.frame, fun row hrow => hmore (h.grown hrow), ?_, ?_, ?_⟩
    · show w₁.trace ++ [Event.appended a record] = _
      rw [h.trace, List.map_append, List.append_assoc]
      rfl
    · intro r hr
      rcases List.mem_append.mp hr with hr | hr
      · exact h.prepared r hr
      · rw [List.mem_singleton.mp hr]
        exact ⟨metaJson, hprepare⟩
    · intro r hr
      rcases List.mem_append.mp hr with hr | hr
      · exact h.ids r hr
      · obtain ⟨_, _, _, _, -, -, -, -, -, -, hrecord⟩ := appendBlock_run_eq_ok.mp hrun
        rw [List.mem_singleton.mp hr]
        exact ⟨bits, congrArg LedgerRecord.activityId hrecord⟩
    · intro r hr
      rcases List.mem_append.mp hr with hr | hr
      · exact (h.committed r hr).mono hmore
      · rw [List.mem_singleton.mp hr]
        exact hcommitted

/-- One row of a program that goes on with its record. -/
theorem safe_row_added {α : Type} {f : PyStr → Activity} {k : LedgerRecord → Prog α}
    {Q : Except Exc α → World → Prop} (hM : M.Grows) (h : Added w w₁ rows)
    (hI : ∀ w', Added w w' rows → I w')
    (hraised : ∀ (t : UtcTime) e w', Added w w' rows → (M.calm → ¬ Appendable (f t.isoformat) w'.db) →
      Q (.error e) w')
    (hnext : ∀ t record w', Added w w' (rows ++ [(f t, record)]) →
      Proc.Safe (answers M) I Q (k record) w') :
    Proc.Safe (answers M) I Q (do let t ← utcNow; let record ← ledgerAppend (f t); k record) w₁ := by
  rw [Proc.safe_bind, safe_utcNow]
  refine ⟨hI w₁ h, fun t => ?_⟩
  dsimp only
  rw [Proc.safe_bind]
  refine safe_append_added hM h hI (fun e w' h' hrefused => ⟨hI w' h', hraised t e w' h' hrefused⟩)
    fun record w' h' => ?_
  have hsafe := hnext t.isoformat record w' h'
  exact ⟨hsafe.inv, hsafe⟩

end Rules

/-! ## The four rows of a proof -/

/-- The records of the four rows, and the times they occurred at. -/
structure ProofStamps where
  records : AnnouncementProofRecords
  t₁ : PyStr
  t₂ : PyStr
  t₃ : PyStr
  t₄ : PyStr

/-- The four-row sequence: each row but the first refers to the one before it. -/
def fourRows (proof : AnnouncementProof) (taskId : PyStr) (s : ProofStamps) : List Appended :=
  [(prepareActivity proof taskId s.t₁, s.records.prepareIntent),
   (signedActivity proof taskId s.t₂ s.records.prepareIntent.activityId, s.records.signedLocal),
   (verifiedActivity proof taskId s.t₃ s.records.signedLocal.activityId, s.records.verifiedLocal),
   (blockedActivity proof taskId s.t₄ s.records.verifiedLocal.activityId, s.records.publishBlocked)]

/-- A row that the recording of a proof can ask the ledger for: the first refers to none, the others to a
record of the table. -/
def RowOf (proof : AnnouncementProof) (taskId : PyStr) (db : Database) (a : Activity) : Prop :=
  ∃ t : UtcTime, a = prepareActivity proof taskId t.isoformat ∨
    ∃ bits, (∃ row ∈ db.activities, row .activityId = .text (uuid4 bits)) ∧
      (a = signedActivity proof taskId t.isoformat (uuid4 bits) ∨
        a = verifiedActivity proof taskId t.isoformat (uuid4 bits) ∨
        a = blockedActivity proof taskId t.isoformat (uuid4 bits))

section Record

variable [PyRuntime] [PyBuiltins] [Ed25519] {M : Mode} {w : World} {I : World → Prop}

/-- What keeps a proof from being recorded when `n` rows of it are there: it does not verify, or the ledger has
something against the next of its rows. -/
def Unrecordable (proof : AnnouncementProof) (taskId : PyStr) (n : Nat) (db : Database) : Prop :=
  checkedProof proof ≠ .ok true ∨ ∃ a, RowOf proof taskId db a ∧
    (n = 0 → ∃ t : UtcTime, a = prepareActivity proof taskId t.isoformat) ∧ ¬ Appendable a db

/-- **Recording a proof** adds a prefix of the four rows, all of them exactly if it returns; and it adds
none for a proof that does not verify. -/
theorem safe_recordLocalAnnouncementProof {proof : AnnouncementProof} {taskId : PyStr}
    {Q : Except Exc AnnouncementProofRecords → World → Prop} (hM : M.Grows)
    (hI : ∀ w' s n, Added w w' ((fourRows proof taskId s).take n) → I w')
    (hraised : ∀ e w' s n, Added w w' ((fourRows proof taskId s).take n) →
      (0 < n → checkedProof proof = .ok true) → (M.calm → Unrecordable proof taskId n w'.db) → Q (.error e) w')
    (hadded : ∀ w' s, Added w w' (fourRows proof taskId s) → proof.verified = true →
      verifyAnnouncementProof proof = .ok true → Q (.ok s.records) w') :
    Proc.Safe (answers M) I Q (recordLocalAnnouncementProof proof taskId) w := by
  -- any stamps will do for what is not there yet
  let blank : LedgerRecord := ⟨[], 0, .none, [], []⟩
  let s₀ : ProofStamps := ⟨⟨blank, blank, blank, blank⟩, [], [], [], []⟩
  have hstart : Added w w ((fourRows proof taskId s₀).take 0) := .refl w
  -- a row that the ledger refuses, and that refers to one of the rows before it
  have hrefused : ∀ {w' : World} {rows : List Appended} {r : Appended} {a : Activity} {t : UtcTime} (n : Nat),
      Added w w' rows → r ∈ rows → (M.calm → ¬ Appendable a w'.db) →
      (a = signedActivity proof taskId t.isoformat r.2.activityId ∨
        a = verifiedActivity proof taskId t.isoformat r.2.activityId ∨
        a = blockedActivity proof taskId t.isoformat r.2.activityId) →
      M.calm → Unrecordable proof taskId (n + 1) w'.db := by
    intro w' rows r a t n h hr happendable ha hcalm
    obtain ⟨bits, hbits, hrow⟩ := h.referable hr
    rw [hbits] at hrow ha
    exact Or.inr ⟨a, ⟨t, Or.inr ⟨bits, hrow, ha⟩⟩, fun hn => absurd hn (Nat.succ_ne_zero n), happendable hcalm⟩
  have hnone : 0 < 0 → checkedProof proof = .ok true := fun h => absurd h (Nat.lt_irrefl 0)
  unfold recordLocalAnnouncementProof
  rw [Proc.safe_bind, Proc.safe_lift]
  refine ⟨hI _ _ _ hstart, ?_⟩
  cases hchecked : checkedProof proof with
  | error e =>
    exact ⟨hI _ _ _ hstart, hraised _ _ _ _ hstart hnone fun _ => Or.inl (by rw [hchecked]; exact nofun)⟩
  | ok verifies =>
    dsimp only
    rw [Proc.safe_ite]
    cases verifies with
    | false =>
      refine ⟨fun _ => ⟨hI _ _ _ hstart, hraised _ _ _ _ hstart hnone fun _ => Or.inl ?_⟩,
        fun h => absurd rfl h⟩
      rw [hchecked]
      exact nofun
    | true =>
      refine ⟨nofun, fun _ => ?_⟩
      refine safe_row_added hM (.refl w) (fun w' h => hI w' s₀ 0 h)
        (fun t e w' h happendable => hraised e w' s₀ 0 h hnone fun hcalm =>
          Or.inr ⟨_, ⟨t, Or.inl rfl⟩, fun _ => ⟨t, rfl⟩, happendable hcalm⟩) fun t₁ r₁ w₁ h₁ => ?_
      let s₁ : ProofStamps := ⟨⟨r₁, blank, blank, blank⟩, t₁, [], [], []⟩
      refine safe_row_added hM h₁ (fun w' h => hI w' s₁ 1 h)
        (fun t e w' h happendable => hraised e w' s₁ 1 h (fun _ => hchecked)
          (hrefused 0 h List.mem_cons_self happendable (Or.inl rfl))) fun t₂ r₂ w₂ h₂ => ?_
      let s₂ : ProofStamps := ⟨⟨r₁, r₂, blank, blank⟩, t₁, t₂, [], []⟩
      refine safe_row_added hM h₂ (fun w' h => hI w' s₂ 2 h)
        (fun t e w' h happendable => hraised e w' s₂ 2 h (fun _ => hchecked) (hrefused 1 h
          (List.mem_append_right _ List.mem_cons_self) happendable (Or.inr (Or.inl rfl))))
        fun t₃ r₃ w₃ h₃ => ?_
      let s₃ : ProofStamps := ⟨⟨r₁, r₂, r₃, blank⟩, t₁, t₂, t₃, []⟩
      refine safe_row_added hM h₃ (fun w' h => hI w' s₃ 3 h)
        (fun t e w' h happendable => hraised e w' s₃ 3 h (fun _ => hchecked) (hrefused 2 h
          (List.mem_append_right _ List.mem_cons_self) happendable (Or.inr (Or.inr rfl))))
        fun t₄ r₄ w₄ h₄ => ?_
      let s₄ : ProofStamps := ⟨⟨r₁, r₂, r₃, r₄⟩, t₁, t₂, t₃, t₄⟩
      obtain ⟨hverified, hverify⟩ := checkedProof_eq_true.mp hchecked
      exact ⟨hI w₄ s₄ 4 h₄, hadded w₄ s₄ h₄ hverified hverify⟩

end Record

end FlopOffice.Technocore
