/-
# FlopOffice.Proof.FileContent — the verifier on a file that others have written.

With access to the file any cell can hold any storage class, whatever its column was declared as, and
text need not be UTF-8. `verify_chain` answers as long as every text can be decoded and the first record
that breaks the chain can be examined: its `chain_index` has to be something `int` reads, and if its
position and its link agree, JSON has to have a text for each of its fields (`verifyFile_answers_iff`).
A BLOB has none, and neither has an infinite REAL.
-/
import FlopOffice.Proof.FirstBreak

namespace FlopOffice.Proof

open FlopOffice.Lib FlopOffice.Python FlopOffice.Storage

/-! ## Files -/

/-- A cell of the file. Integers have 64 bits, and a NaN is stored as NULL. -/
inductive Cell
  | null
  | integer (i : Int) (h : storable i = true)
  | real (f : PyFloat) (h : f ≠ .nan)
  | text (b : Bytes)
  | blob (b : Bytes)

/-- A cell as the `sqlite3` module fetches it: text is decoded. -/
def Cell.fetch : Cell → Except Exc SqlValue
  | .null => .ok .null
  | .integer i _ => .ok (.integer i)
  | .real f _ => .ok (.real f)
  | .text b => match utf8Decode b with
    | some s => .ok (.text s)
    | none => .error ⟨.databaseError, []⟩
  | .blob b => .ok (.blob b)

/-- A row of the file. -/
abbrev StoredRow := Column → Cell

/-- `SELECT * FROM activities`, one row. -/
def fetchRow (row : StoredRow) : Except Exc ActivityRow := do
  let values ← Column.all.mapM fun c => (row c).fetch
  pure fun c => (Column.all.zip values).lookup c |>.getD .null

/-- `fetchall`. -/
def fetchAll (file : List StoredRow) : Except Exc (List ActivityRow) := file.mapM fetchRow

/-- `verify_chain` on a connection to the file. -/
def verifyFile [PyRuntime] (file : List StoredRow) : Except Exc VerifyResult := do
  let activities ← fetchAll file
  verifyChain activities

/-! ## Fetching -/

/-- Text is UTF-8. -/
def Cell.Decodes : Cell → Prop
  | .text b => ∃ s, utf8Decode b = some s
  | _ => True

theorem Cell.fetch_isOk_iff {cell : Cell} : (∃ v, cell.fetch = .ok v) ↔ cell.Decodes := by
  cases cell with
  | null | integer | real | blob => exact iff_of_true ⟨_, rfl⟩ trivial
  | text b =>
    simp only [Cell.fetch, Cell.Decodes]
    cases utf8Decode b with
    | none => exact iff_of_false nofun nofun
    | some s => exact iff_of_true ⟨_, rfl⟩ ⟨s, rfl⟩

theorem fetchAll_eq_ok_iff {file : List StoredRow} {activities : List ActivityRow} :
    fetchAll file = .ok activities ↔
      List.Forall₂ (fun cells row => ∀ c, (cells c).fetch = .ok (row c)) file activities := by
  rw [fetchAll, mapM_eq_ok_iff]
  have hrow : ∀ {cells : StoredRow} {row : ActivityRow}, fetchRow cells = .ok row ↔
      ∀ c, (cells c).fetch = .ok (row c) := mapRow_eq_ok_iff
  simp only [hrow]

/-- A file can be fetched exactly if its texts can be decoded. -/
theorem fetchAll_isOk_iff {file : List StoredRow} :
    (∃ activities, fetchAll file = .ok activities) ↔ ∀ cells ∈ file, ∀ c, (cells c).Decodes := by
  constructor
  · rintro ⟨activities, h⟩ cells hcells c
    obtain ⟨row, -, hrow⟩ := exists_right_of_forall₂ (fetchAll_eq_ok_iff.mp h) hcells
    exact Cell.fetch_isOk_iff.mp ⟨_, hrow c⟩
  · intro h
    induction file with
    | nil => exact ⟨[], rfl⟩
    | cons cells file ih =>
      obtain ⟨activities, hrest⟩ := ih fun d hd => h d (List.mem_cons_of_mem _ hd)
      choose row hrow using fun c => Cell.fetch_isOk_iff.mpr (h cells List.mem_cons_self c)
      exact ⟨row :: activities, fetchAll_eq_ok_iff.mpr (.cons hrow (fetchAll_eq_ok_iff.mp hrest))⟩

/-! ## Fields -/

/-- JSON has a text for the value. -/
def Serialisable : SqlValue → Prop
  | .blob _ | .real (.inf _) | .real .nan => False
  | _ => True

section Verifier

variable [PyRuntime]

/-- A fetched record can be hashed exactly if its fields can be written. -/
theorem computeEntryHash_isOk_iff {cells : StoredRow} {row : ActivityRow}
    (hfetch : ∀ c, (cells c).fetch = .ok (row c)) :
    (∃ h, computeEntryHash (chainedFields row.read) = .ok h) ↔
      ∀ c ∈ CHAINED_FIELDS, Serialisable (row c) := by
  have hfields : ∀ c, (∃ t, dumpsScalar (row.read c) = .ok t) ↔ Serialisable (row c) := by
    intro c
    have hc := hfetch c
    show (∃ t, dumpsScalar (row c).toScalar = .ok t) ↔ _
    cases hcell : cells c with
    | null =>
      rw [hcell] at hc
      rw [← Except.ok.inj hc]
      exact iff_of_true ⟨_, rfl⟩ trivial
    | integer i hi =>
      rw [hcell] at hc
      rw [← Except.ok.inj hc]
      exact iff_of_true (strInt_of_storable hi) trivial
    | real f hf =>
      rw [hcell] at hc
      rw [← Except.ok.inj hc]
      cases f with
      | nan => exact absurd rfl hf
      | inf neg => exact iff_of_false nofun nofun
      | finite neg mant exp => exact iff_of_true ⟨_, rfl⟩ trivial
    | text b =>
      rw [hcell, Cell.fetch] at hc
      split at hc
      · rw [← Except.ok.inj hc]
        exact iff_of_true ⟨_, rfl⟩ trivial
      · cases hc
    | blob b =>
      rw [hcell] at hc
      rw [← Except.ok.inj hc]
      exact iff_of_false nofun nofun
  rw [computeEntryHash_chained]
  constructor
  · rintro ⟨h, hh⟩ c hc
    obtain ⟨data, hdata, -⟩ := bind_eq_ok.mp hh
    obtain ⟨t, ht, -⟩ := bind_eq_ok.mp hdata
    obtain ⟨x, hx, -⟩ := dumps_payload_eq_ok.mp ht
    exact (hfields c).mp ⟨_, hx c (mem_sortedFields.mpr (mem_CHAINED_FIELDS.mp hc))⟩
  · intro h
    have hscalar : ∀ c ∈ sortedFields, ∃ t, dumpsScalar (row.read c) = .ok t := fun c hc =>
      (hfields c).mpr (h c (mem_CHAINED_FIELDS.mpr (mem_sortedFields.mp hc)))
    choose! x hx using hscalar
    obtain ⟨data, hdata⟩ := canonicalBytes_of_dumps (dumps_payload_eq_ok.mpr ⟨x, hx, rfl⟩) fun c _ s hs => by
      -- what was decoded can be encoded
      have hc := hfetch c
      replace hs : (row c).toScalar = .str s := hs
      cases hcell : cells c with
      | text b =>
        rw [hcell, Cell.fetch] at hc
        split at hc
        · rename_i s' hs'
          rw [← Except.ok.inj hc] at hs
          cases hs
          exact utf8_isOk_iff.mp (utf8_of_utf8Decode hs')
        · cases hc
      | null | integer | real | blob =>
        rw [hcell] at hc
        rw [← Except.ok.inj hc] at hs
        cases hs
    exact ⟨_, bind_eq_ok.mpr ⟨data, hdata, rfl⟩⟩

/-! ## Answers -/

/-- The verifier returns a result, and it is BROKEN if some record does not agree. -/
def Answers (file : List StoredRow) : Prop :=
  ∃ res, verifyFile file = .ok res ∧ ∀ activities, fetchAll file = .ok activities →
    ∀ i row, (orderByChainIndex activities)[i]? = some row →
      ¬ Agrees (orderByChainIndex activities) i row → res.status = .BROKEN

/-- A record that can be reported: `int` reads its position, Python writes the two numbers if they
differ, and JSON has texts for its fields if its position and its link agree. -/
structure Reportable (rows : List ActivityRow) (i : Nat) (row : ActivityRow) : Prop where
  position : ∃ n, (row .chainIndex).pyInt = .ok n ∧
    (n ≠ i → (∃ t, strInt i = .ok t) ∧ ∃ t, strInt n = .ok t)
  fields : (row .chainIndex).pyInt = .ok (i : Int) → row.read .prevHash = expectedPrev rows i →
    ∀ c ∈ CHAINED_FIELDS, Serialisable (row c)

theorem examinable_iff_reportable {rows : List ActivityRow} {i : Nat} {cells : StoredRow}
    {row : ActivityRow} (hfetch : ∀ c, (cells c).fetch = .ok (row c)) :
    Examinable rows i row ↔ Reportable rows i row := by
  have hhash := computeEntryHash_isOk_iff hfetch
  constructor
  · intro h
    exact ⟨h.position, fun hi hp => hhash.mp (h.hash hi hp)⟩
  · intro h
    exact ⟨h.position, fun hi hp => hhash.mpr (h.fields hi hp)⟩

/-- **When the verifier answers**: exactly on the files whose texts are UTF-8 and whose first record
that does not agree, if there is one, can be reported. -/
theorem verifyFile_answers_iff (file : List StoredRow) :
    Answers file ↔ (∀ cells ∈ file, ∀ c, (cells c).Decodes) ∧
      ∀ activities, fetchAll file = .ok activities → ∀ k row,
        BreaksAt (orderByChainIndex activities) k row →
          Reportable (orderByChainIndex activities) k row := by
  have hreportable : ∀ {activities : List ActivityRow}, fetchAll file = .ok activities →
      ∀ {k row}, BreaksAt (orderByChainIndex activities) k row →
        (Examinable (orderByChainIndex activities) k row ↔
          Reportable (orderByChainIndex activities) k row) := by
    intro activities h k row hbreak
    have hmem := (orderByChainIndex_perm activities).mem_iff.mp (List.mem_of_getElem? hbreak.1)
    obtain ⟨cells, -, hcells⟩ := exists_left_of_forall₂ (fetchAll_eq_ok_iff.mp h) hmem
    exact examinable_iff_reportable hcells
  constructor
  · rintro ⟨res, hres, -⟩
    obtain ⟨activities, hfetch, hverify⟩ := bind_eq_ok.mp hres
    refine ⟨fetchAll_isOk_iff.mp ⟨activities, hfetch⟩, fun activities' hfetch' k row hbreak => ?_⟩
    rw [hfetch] at hfetch'
    cases hfetch'
    rw [← hreportable hfetch hbreak]
    have hbroken : ¬ Chained activities := fun h =>
      hbreak.2.2 (chained_iff_agrees.mp h k row hbreak.1)
    obtain ⟨k', row', rest, prev, hbreak', hprev, hloop⟩ := exists_breaksAt hbroken
    obtain ⟨rfl, rfl⟩ := hbreak'.unique hbreak
    rw [hloop] at hverify
    exact examinable_of_verifyLoop hprev hverify
  · rintro ⟨hdecodes, hreport⟩
    obtain ⟨activities, hfetch⟩ := fetchAll_isOk_iff.mpr hdecodes
    have hverify : verifyFile file = verifyChain activities := by
      rw [verifyFile, hfetch]
      rfl
    unfold Answers
    rw [hverify]
    by_cases h : Chained activities
    · -- every record agrees, so nothing is left to show
      have hok : ∃ res, verifyChain activities = .ok res := by
        by_cases hnil : activities = []
        · rw [hnil]
          exact ⟨_, rfl⟩
        · exact ⟨_, verifyChain_of_chained h hnil⟩
      obtain ⟨res, hres⟩ := hok
      refine ⟨res, hres, fun activities' hfetch' i row hrow hno => ?_⟩
      rw [hfetch] at hfetch'
      cases hfetch'
      exact absurd (chained_iff_agrees.mp h i row hrow) hno
    · obtain ⟨k, row, rest, prev, hbreak, hprev, hloop⟩ := exists_breaksAt h
      obtain ⟨b, hres, -⟩ := verifyLoop_break hprev hbreak.2.2
        ((hreportable hfetch hbreak).mpr (hreport activities hfetch k row hbreak)) rest
      exact ⟨_, hloop.trans hres, fun _ _ _ _ _ _ => rfl⟩

end Verifier

section Sample

attribute [local instance] asciiRuntime

/-- A record whose `chain_index` is the text `abc`. -/
def scribbledRow : StoredRow
  | .chainIndex => .text (ascii "abc")
  | .costUnit => .text (ascii "NONE")
  | c => if c ∈ notNull then .text (List.replicate 64 0x30) else .null

/-- The record as it is fetched. -/
def scribbledRead : ActivityRow
  | .chainIndex => .text (py "abc")
  | .costUnit => .text (py "NONE")
  | c => if c ∈ notNull then .text (List.replicate 64 (cp '0')) else .null

theorem scribbled_fetched : fetchAll [scribbledRow] = .ok [scribbledRead] := by
  have hdecode : ∀ {s : PyStr} {b : Bytes}, utf8 s = .ok b →
      (Cell.text b).fetch = .ok (.text s) := by
    intro s b h
    rw [Cell.fetch, utf8Decode_utf8 h]
  refine fetchAll_eq_ok_iff.mpr (.cons (fun c => ?_) .nil)
  have hzeros : (Cell.text (List.replicate 64 0x30)).fetch =
      .ok (.text (List.replicate 64 (cp '0'))) := hdecode (by decide)
  cases c with
  | chainIndex | costUnit => exact hdecode (by decide)
  | agentDid | activityType | occurredAt | recordedAt | prevHash | entryHash => exact hzeros
  | _ => rfl

/-- **A cell the verifier does not survive**: the schema lets the text pass, and `int` raises. -/
theorem scribbled_position_raises : ¬ ∀ (file : List StoredRow) activities,
    fetchAll file = .ok activities →
      (∀ pre row post, activities = pre ++ row :: post → constraintsHold pre row = true) →
        Answers file := by
  intro hall
  have hallowed : ∀ pre row post, [scribbledRead] = pre ++ row :: post →
      constraintsHold pre row = true := by
    intro pre row post h
    cases pre with
    | nil =>
      cases h
      decide
    | cons _ pre =>
      cases pre <;> cases (List.cons.inj h).2
  obtain ⟨res, hres, -⟩ := hall _ _ scribbled_fetched hallowed
  rw [verifyFile, scribbled_fetched] at hres
  replace hres : verifyChain [scribbledRead] = .ok res := hres
  have hraises : verifyChain [scribbledRead] = .error ⟨.valueError, []⟩ := by decide
  rw [hraises] at hres
  cases hres

end Sample

end FlopOffice.Proof
