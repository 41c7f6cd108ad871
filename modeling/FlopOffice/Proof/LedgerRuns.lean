/-
# FlopOffice.Proof.LedgerRuns — the chain invariant over every run of appends.

`ChainInvariant` is what a table of appended records looks like: numbered by its places, linked from
the genesis value, every reference pointing backwards, every column of its declared type. One append
preserves it (`appendBlock_preserves`), and transactions serialise, so it holds of the committed table
after any interleaving of any number of appends, refused, rolled back or committed
(`ledger_invariant`).

The restriction to plain integers is needed: a `bool` in `tc_seq` or `tc_nonce` is hashed as `true` and
stored as 1, and the record it was written with no longer carries its own hash.
-/
import FlopOffice.Proof.Positions

namespace FlopOffice.Proof

open FlopOffice.Lib FlopOffice.Python FlopOffice.Storage

variable [PyRuntime]

/-! ## What an append stores -/

omit [PyRuntime] in
theorem faithful_intScalar {x : Option PyInt} (hx : PlainInt x) : Faithful (intScalar x) := by
  cases x with
  | none => trivial
  | some i =>
    cases i with
    | int i => trivial
    | bool b => exact absurd rfl (hx b)

omit [PyRuntime] in
theorem faithful_strScalar (x : Option PyStr) : Faithful (strScalar x) := by
  cases x <;> trivial

omit [PyRuntime] in
/-- Every value of an append's row is stored as it is, if its integers are plain. -/
theorem activityRow_faithful {a : Activity} (ha : a.PlainInts) {meta_json : Option PyStr}
    {id at_ s hash : PyStr} {index : Int} (c : Column) :
    Faithful (Function.update (activityRow a meta_json id at_ index (.str s)) .entryHash
      (.str hash) c) := by
  cases c with
  | tcSeq => exact faithful_intScalar ha.1
  | tcNonce => exact faithful_intScalar ha.2
  | entryHash | chainIndex | activityId | agentDid | activityType | costUnit | occurredAt
  | recordedAt | prevHash => trivial
  | taskId | refActivityId | tcRoom | signedPayloadHash | signature | resultHash | providerId
  | model | costAmount | metaJson => exact faithful_strScalar _

omit [PyRuntime] in
theorem admits_of_bind_str {c : Column} (hc : c.isInteger = false) {s : PyStr} {v : SqlValue}
    (h : bindValue (.str s) = .ok v) : c.admits v = true := by
  obtain ⟨hu, rfl⟩ := bindValue_str.mp h
  simp only [Column.admits, hc, Bool.not_false, Bool.true_and, List.all_eq_true, Bool.not_eq_true']
  exact utf8_isOk_iff.mp hu

omit [PyRuntime] in
theorem admits_of_bind_optional_str {c : Column} (hc : c.isInteger = false) (hn : c ∉ notNull)
    {x : Option PyStr} {v : SqlValue} (h : bindValue (strScalar x) = .ok v) : c.admits v = true := by
  cases x with
  | none =>
    cases h
    simpa [Column.admits] using hn
  | some s => exact admits_of_bind_str hc h

omit [PyRuntime] in
theorem admits_of_bind_int {c : Column} (hc : c.isInteger = true) {i : Int} {v : SqlValue}
    (h : bindValue (.int i) = .ok v) : c.admits v = true := by
  simp only [bindValue] at h
  split at h
  · rename_i hs
    cases h
    simp [Column.admits, hc, hs]
  · cases h

omit [PyRuntime] in
theorem admits_of_bind_optional_int {c : Column} (hc : c.isInteger = true) (hn : c ∉ notNull)
    {x : Option PyInt} {v : SqlValue} (h : bindValue (intScalar x) = .ok v) : c.admits v = true := by
  cases x with
  | none =>
    cases h
    simpa [Column.admits] using hn
  | some i =>
    cases i with
    | int i => exact admits_of_bind_int hc h
    | bool b =>
      cases h
      have hs : storable (if b then 1 else 0) = true := by cases b <;> decide
      simp only [Column.admits, hc, hs, Bool.and_self]

omit [PyRuntime] in
/-- A bound row holds values of the declared types. -/
theorem activityRow_typed {a : Activity} {meta_json : Option PyStr} {id at_ s hash : PyStr}
    {index : Int} {r : ActivityRow}
    (h : ∀ c, bindValue (Function.update (activityRow a meta_json id at_ index (.str s)) .entryHash
      (.str hash) c) = .ok (r c)) : r.Typed := by
  intro c
  have hc := h c
  cases c with
  | entryHash | activityId | agentDid | activityType | costUnit | occurredAt | recordedAt
  | prevHash => exact admits_of_bind_str rfl hc
  | chainIndex => exact admits_of_bind_int rfl hc
  | tcSeq | tcNonce => exact admits_of_bind_optional_int rfl (by decide) hc
  | taskId | refActivityId | tcRoom | signedPayloadHash | signature | resultHash | providerId
  | model | costAmount | metaJson => exact admits_of_bind_optional_str rfl (by decide) hc

/-! ## Appending to a sound table -/

/-- The row of an append that read `prev` at the head and computed `hash`. -/
def appendedRow (a : Activity) (metaJson : Option PyStr) (id recordedAt : PyStr) (index : Int)
    (prev hash : PyStr) : Row :=
  Function.update (activityRow a metaJson id recordedAt index (.str prev)) .entryHash (.str hash)

omit [PyRuntime] in
theorem appendedRow_of_ne {a : Activity} {metaJson : Option PyStr} {id at_ prev hash : PyStr}
    {index : Int} {c : Column} (hc : c ≠ .entryHash) :
    appendedRow a metaJson id at_ index prev hash c =
      activityRow a metaJson id at_ index (.str prev) c :=
  Function.update_of_ne hc _ _

theorem SoundTable.numbered_positions {rows : List ActivityRow} (h : SoundTable rows) : Numbered rows := by
  intro r hr
  rw [(h.typed r hr).chainIndex.1]
  rfl

/-- The next record of a sound table: its position, and the hash it links to. -/
theorem SoundTable.nextLink {db : Database} (h : SoundTable db.activities) :
    ∃ prev, nextLink (selectHead db) = .ok (db.activities.length, .str prev) ∧
      headHash db.activities = some (.str prev) ∧ prev.length = 64 ∧ ∀ c ∈ prev, c ∈ hexAlphabet := by
  obtain ⟨prev, hlink, htip⟩ := h.chained.nextLink
  refine ⟨prev, hlink, htip, ?_⟩
  rw [headHash] at htip
  rcases List.eq_nil_or_concat' (orderByChainIndex db.activities) with hnil | ⟨init, last, hlast⟩
  · rw [hnil] at htip
    cases htip
    exact ⟨by simp [GENESIS_PREV_HASH], by decide⟩
  · have hmem : last ∈ orderByChainIndex db.activities := by rw [hlast]; simp
    obtain ⟨b, -, -, he⟩ := h.hash_eq ((orderByChainIndex_perm _).mem_iff.mp hmem)
    rw [hlast, ChainView.tip_concat] at htip
    replace htip : (last .entryHash).toScalar = .str prev := Option.some.inj htip
    rw [he] at htip
    cases htip
    exact ⟨hexdigest_length b, fun c hc => mem_hexAlphabet_of_mem_hexdigest hc⟩

/-- **One more link** of the declared types. -/
theorem SoundTable.concat {rows : List ActivityRow} (h : SoundTable rows) {r : ActivityRow} {hash : PyStr}
    (htyped : r.Typed) (hnum : r .chainIndex = .integer rows.length)
    (hprev : headHash rows = some (r.read .prevHash)) (hown : computeEntryHash r.read = .ok hash)
    (hentry : r.read .entryHash = .str hash) :
    SoundTable (rows ++ [r]) ∧ headHash (rows ++ [r]) = some (.str hash) := by
  obtain ⟨hchained, hhead⟩ := h.chained.concat h.numbered_positions hnum hprev hown hentry
  refine ⟨⟨fun t ht => ?_, hchained⟩, hhead⟩
  rcases List.mem_append.mp ht with ht | ht
  · exact h.typed t ht
  · rw [List.mem_singleton.mp ht]
    exact htyped

/-- **One append to a sound table**: it adds one row, stored as it was built. -/
theorem appendBlock_spec {a : Activity} (ha : a.PlainInts) {metaJson : Option PyStr} {id at_ : PyStr}
    {db db' : Database} {record : LedgerRecord} (hs : SoundTable db.activities)
    (h : (appendBlock a metaJson id at_).run db = .ok (record, db')) :
    ∃ prev hash r, db' = { db with activities := db.activities ++ [r] } ∧
      record = ⟨id, db.activities.length, .str prev, hash, at_⟩ ∧
      r.read = appendedRow a metaJson id at_ db.activities.length prev hash ∧
      SoundTable db'.activities ∧ headHash db'.activities = some (.str hash) ∧
      ∀ ref, a.refActivityId = some ref → ∃ t ∈ db.activities, t .activityId = .text ref := by
  obtain ⟨index, prev, hash, r, hlink, href, hhash, hbind, -, rfl, rfl⟩ :=
    appendBlock_run_eq_ok.mp h
  obtain ⟨p, hlink', htip, -, -⟩ := hs.nextLink
  rw [hlink'] at hlink
  cases hlink
  have hread : r.read = appendedRow a metaJson id at_ db.activities.length p hash :=
    funext fun c => bindValue_roundtrip (activityRow_faithful ha c) (hbind c)
  have hnum : r .chainIndex = .integer db.activities.length :=
    SqlValue.toScalar_injective (congrFun hread .chainIndex)
  have hown : computeEntryHash r.read = .ok hash := by
    rw [← hhash, hread]
    exact computeEntryHash_congr fun c hc => appendedRow_of_ne (mem_CHAINED_FIELDS.mp hc)
  have hprev : headHash db.activities = some (r.read .prevHash) := by
    rw [htip, hread]
    rfl
  have hentry : r.read .entryHash = .str hash := by
    rw [hread, appendedRow, Function.update_self]
  obtain ⟨hsound, hhead⟩ := hs.concat (activityRow_typed hbind) hnum hprev hown hentry
  exact ⟨p, hash, r, rfl, rfl, hread, hsound, hhead, fun ref hr => (href ref hr).2⟩

/-! ## When an append succeeds -/

/-- Every value of the row can be bound: texts without lone surrogates, integers of 64 bits. -/
def Bindable (a : Activity) (metaJson : Option PyStr) (id recordedAt : PyStr) (index : Int) : Prop :=
  ∀ c, ∃ v, bindValue (activityRow a metaJson id recordedAt index .none c) = .ok v

/-- The row's id and its hash are new to the table: what is left of the constraints once the values
are right. -/
def Fresh (db : Database) (a : Activity) (metaJson : Option PyStr) (id recordedAt : PyStr) : Prop :=
  (∀ t ∈ db.activities, t .activityId ≠ .text id) ∧
  ∀ prev hash, headHash db.activities = some (.str prev) →
    computeEntryHash (activityRow a metaJson id recordedAt db.activities.length (.str prev)) =
      .ok hash → ∀ t ∈ db.activities, t .entryHash ≠ .text hash

omit [PyRuntime] in
theorem sqlLength_hex {s : PyStr} (h : ∀ c ∈ s, c ∈ hexAlphabet) :
    sqlLength (.text s) = some s.length := by
  have hne : ∀ c ∈ hexAlphabet, (c.val != 0) = true := by decide
  rw [sqlLength, List.takeWhile_eq_self_iff.mpr fun c hc => hne c (h c hc)]

omit [PyRuntime] in
theorem utf8_hex {s : PyStr} (h : ∀ c ∈ s, c ∈ hexAlphabet) : ∃ b, utf8 s = .ok b := by
  have hsc : ∀ c ∈ hexAlphabet, c.isSurrogate = false := by decide
  exact utf8_isOk_iff.mpr fun c hc => hsc c (h c hc)

omit [PyRuntime] in
theorem written_activityRow {a : Activity} {metaJson : Option PyStr} {id at_ prev : PyStr}
    {index : Int} (c : Column) : Written (activityRow a metaJson id at_ index (.str prev) c) := by
  have hint : ∀ x, Written (intScalar x) := by
    rintro (_ | ⟨_ | _⟩) <;> trivial
  have hstr : ∀ x, Written (strScalar x) := by
    rintro (_ | _) <;> trivial
  cases c with
  | tcSeq | tcNonce => exact hint _
  | entryHash | chainIndex | activityId | agentDid | activityType | costUnit | occurredAt
  | recordedAt | prevHash => trivial
  | taskId | refActivityId | tcRoom | signedPayloadHash | signature | resultHash | providerId
  | model | costAmount | metaJson => exact hstr _

theorem costUnit_of_validate {a : Activity} (h : validate a = .ok ()) :
    a.costUnit ∈ costUnits := by
  unfold validate at h
  split at h
  · cases h
  split at h
  · cases h
  split at h
  · cases h
  · exact not_not.mp (by assumption)

/-- A hash as the ledger stores it: 64 hexadecimal digits. -/
def IsDigest (s : PyStr) : Prop := s.length = 64 ∧ ∀ c ∈ s, c ∈ hexAlphabet

/-- The constraints of the schema, for the row of an append to a sound table. -/
theorem constraintsHold_appendedRow {a : Activity} (hcost : a.costUnit ∈ costUnits)
    {metaJson : Option PyStr} {id at_ prev hash : PyStr} {rows : List ActivityRow}
    (hs : SoundTable rows) (hprev : IsDigest prev) (hhash : IsDigest hash) {r : ActivityRow}
    (hr : ∀ c, bindValue (appendedRow a metaJson id at_ rows.length prev hash c) = .ok (r c))
    (href : ∀ ref, a.refActivityId = some ref → ∃ t ∈ rows, t .activityId = .text ref)
    (hid : ∀ t ∈ rows, t .activityId ≠ .text id) (hfresh : ∀ t ∈ rows, t .entryHash ≠ .text hash) :
    constraintsHold rows r = true := by
  have hstr : ∀ c s, appendedRow a metaJson id at_ rows.length prev hash c = .str s → r c = .text s :=
    fun c s hc => (bindValue_str.mp (hc ▸ hr c)).2
  have hentry : r .entryHash = .text hash := hstr _ _ (by rw [appendedRow, Function.update_self])
  have hindex : r .chainIndex = .integer rows.length := by
    have h := hr .chainIndex
    simp only [appendedRow_of_ne (show Column.chainIndex ≠ .entryHash by decide), activityRow,
      bindValue] at h
    split at h
    · exact (Except.ok.inj h).symm
    · cases h
  have hnumbers : ∀ t ∈ rows, t .chainIndex ≠ r .chainIndex := by
    intro t ht heq
    obtain ⟨i, hi, rfl⟩ := List.getElem_of_mem ((orderByChainIndex_perm _).mem_iff.mpr ht)
    have hn := hs.numbered i hi
    rw [ActivityRow.index_eq (heq.trans hindex)] at hn
    rw [(orderByChainIndex_perm _).length_eq] at hi
    omega
  have hrefcol : r .refActivityId = .null ∨ ∃ t ∈ rows, t .activityId = r .refActivityId := by
    cases hra : a.refActivityId with
    | none =>
      have h := hr .refActivityId
      rw [appendedRow_of_ne (by decide), activityRow, hra] at h
      exact Or.inl (Except.ok.inj h).symm
    | some ref =>
      obtain ⟨t, ht, htid⟩ := href ref hra
      refine Or.inr ⟨t, ht, ?_⟩
      rw [htid, hstr .refActivityId ref (by rw [appendedRow_of_ne (by decide), activityRow, hra]; rfl)]
  simp only [constraintsHold, Bool.and_eq_true]
  refine ⟨⟨⟨⟨⟨⟨?_, ?_⟩, ?_⟩, ?_⟩, ?_⟩, ?_⟩, ?_⟩
  · simp only [notNull, List.all_cons, List.all_nil, Bool.and_true, Bool.and_eq_true, bne_iff_ne]
    rw [hindex, hentry, hstr .agentDid _ rfl, hstr .activityType _ rfl, hstr .costUnit _ rfl,
      hstr .occurredAt _ rfl, hstr .recordedAt _ rfl, hstr .prevHash _ rfl]
    refine ⟨?_, ?_, ?_, ?_, ?_, ?_, ?_, ?_⟩
    all_goals exact fun h => by cases h
  · simp only [List.all_cons, List.all_nil, Bool.and_true, Bool.and_eq_true, List.all_eq_true,
      bne_iff_ne]
    rw [hstr .activityId _ rfl, hentry]
    exact ⟨hid, hnumbers, hfresh⟩
  · rw [List.any_eq_true]
    exact ⟨a.costUnit, hcost, by rw [hstr .costUnit _ rfl]; exact beq_self_eq_true _⟩
  · rw [hentry, sqlLength_hex hhash.2, hhash.1]
    rfl
  · rw [hstr .prevHash _ rfl, sqlLength_hex hprev.2, hprev.1]
    rfl
  · rw [hindex, SqlValue.le_integer]
    exact decide_eq_true (Int.natCast_nonneg _)
  · rw [Bool.or_eq_true, beq_iff_eq, List.any_eq_true]
    refine hrefcol.imp_right ?_
    rintro ⟨t, ht, htid⟩
    refine ⟨t, List.mem_cons_of_mem _ ht, ?_⟩
    rw [htid]
    exact beq_self_eq_true _

/-- **When an append to a sound table succeeds**: exactly if every value can be bound, the reference
is to a record of the table, and id and hash are new. -/
theorem appendBlock_succeeds_iff {a : Activity} (hv : validate a = .ok ()) {metaJson : Option PyStr}
    {id at_ : PyStr} {db : Database} (hs : SoundTable db.activities) :
    (∃ record db', (appendBlock a metaJson id at_).run db = .ok (record, db')) ↔
      Bindable a metaJson id at_ db.activities.length ∧
      (∀ ref, a.refActivityId = some ref → ∃ t ∈ db.activities, t .activityId = .text ref) ∧
      Fresh db a metaJson id at_ := by
  obtain ⟨prev, hlink, htip, hlen, hhex⟩ := hs.nextLink
  have hcol : ∀ c, c ≠ .prevHash → c ≠ .entryHash → ∀ p hash,
      appendedRow a metaJson id at_ db.activities.length p hash c =
        activityRow a metaJson id at_ db.activities.length .none c := by
    intro c hp he p hash
    rw [appendedRow_of_ne he]
    cases c <;> first | rfl | exact absurd rfl hp
  constructor
  · rintro ⟨record, db', h⟩
    obtain ⟨index, p, hash, r, hlink', href, hhash, hbind, hcon, -, -⟩ :=
      appendBlock_run_eq_ok.mp h
    rw [hlink] at hlink'
    cases hlink'
    have hrow : ∀ c v, appendedRow a metaJson id at_ db.activities.length prev hash c = v →
        bindValue v = .ok (r c) := fun c v hv => hv ▸ hbind c
    simp only [constraintsHold, Bool.and_eq_true, List.all_eq_true, bne_iff_ne] at hcon
    obtain ⟨⟨⟨⟨⟨⟨-, huniq⟩, -⟩, -⟩, -⟩, -⟩, -⟩ := hcon
    refine ⟨fun c => ?_, fun ref hr => (href ref hr).2, ?_, ?_⟩
    · by_cases hp : c = .prevHash
      · subst hp
        exact ⟨.null, rfl⟩
      · by_cases he : c = .entryHash
        · subst he
          exact ⟨.null, rfl⟩
        · exact ⟨r c, hrow c _ (hcol c hp he prev hash)⟩
    · intro t ht
      have hid := (bindValue_str.mp (hrow .activityId _ rfl)).2
      rw [← hid]
      exact huniq .activityId (by decide) t ht
    · intro p' hash' hp' hh' t ht
      rw [htip] at hp'
      cases hp'
      rw [hhash] at hh'
      cases hh'
      have heq := (bindValue_str.mp (hrow .entryHash (.str hash)
        (by rw [appendedRow, Function.update_self]))).2
      rw [← heq]
      exact huniq .entryHash (by decide) t ht
  · rintro ⟨hbind, href, hid, hfresh⟩
    have hbind' : ∀ c, ∃ v,
        bindValue (activityRow a metaJson id at_ db.activities.length (.str prev) c) = .ok v := by
      intro c
      by_cases hp : c = .prevHash
      · subst hp
        exact ⟨_, bindValue_str.mpr ⟨utf8_hex hhex, rfl⟩⟩
      · obtain ⟨v, hv⟩ := hbind c
        refine ⟨v, ?_⟩
        rw [← hv]
        cases c <;> first | rfl | exact absurd rfl hp
    obtain ⟨data, hdata⟩ := canonicalBytes_of_bindable fun c _ => ⟨written_activityRow c, hbind' c⟩
    have hhash : computeEntryHash (activityRow a metaJson id at_ db.activities.length (.str prev)) =
        .ok (hexdigest data) := bind_eq_ok.mpr ⟨data, hdata, rfl⟩
    have hhexd : ∀ c ∈ hexdigest data, c ∈ hexAlphabet :=
      fun c hc => mem_hexAlphabet_of_mem_hexdigest hc
    -- the row the insert binds
    have hrow : ∀ c, ∃ v, bindValue (appendedRow a metaJson id at_ db.activities.length prev
        (hexdigest data) c) = .ok v := by
      intro c
      by_cases he : c = .entryHash
      · subst he
        rw [appendedRow, Function.update_self]
        exact ⟨_, bindValue_str.mpr ⟨utf8_hex hhexd, rfl⟩⟩
      · rw [appendedRow_of_ne he]
        exact hbind' c
    choose r hr using hrow
    refine ⟨_, _, appendBlock_run_eq_ok.mpr ⟨_, _, _, r, hlink, fun ref hra => ⟨?_, href ref hra⟩,
      hhash, hr, ?_, rfl, rfl⟩⟩
    · have h := hr .refActivityId
      rw [appendedRow_of_ne (by decide), activityRow, hra] at h
      exact (bindValue_str.mp h).1
    · exact constraintsHold_appendedRow (costUnit_of_validate hv) hs ⟨hlen, hhex⟩
        ⟨hexdigest_length data, hhexd⟩ hr href hid (hfresh _ _ htip hhash)

/-! ## The invariant -/

/-- What a table of appended records looks like, in the order they were committed. -/
structure ChainInvariant (rows : List ActivityRow) : Prop where
  sound : SoundTable rows
  numbered : ∀ i (hi : i < rows.length), rows[i] .chainIndex = .integer i
  refs : ∀ i (hi : i < rows.length), rows[i] .refActivityId ≠ .null →
    ∃ j, ∃ hj : j < i, rows[j] .activityId = rows[i] .refActivityId

theorem ChainInvariant.empty : ChainInvariant [] :=
  ⟨⟨by simp, trivial⟩, by simp, by simp⟩

/-- The table is kept in chain order. -/
theorem ChainInvariant.order_eq {rows : List ActivityRow} (h : ChainInvariant rows) :
    orderByChainIndex rows = rows :=
  orderByChainIndex_of_numbered (List.Perm.refl _) (fun r hr => (h.sound.typed r hr).chainIndex.1)
    fun i hi => ActivityRow.index_eq (h.numbered i hi)

/-- **One append keeps the invariant.** -/
theorem ChainInvariant.append {a : Activity} (ha : a.PlainInts) {metaJson : Option PyStr}
    {id at_ : PyStr} {db db' : Database} {record : LedgerRecord} (hinv : ChainInvariant db.activities)
    (h : (appendBlock a metaJson id at_).run db = .ok (record, db')) :
    ChainInvariant db'.activities := by
  obtain ⟨prev, hash, r, rfl, rfl, hread, hsound, -, href⟩ := appendBlock_spec ha hinv.sound h
  have hlast : ∀ i, i < (db.activities ++ [r]).length → i < db.activities.length ∨
      i = db.activities.length := by
    intro i hi
    simp only [List.length_append, List.length_singleton] at hi
    omega
  refine ⟨hsound, ?_, ?_⟩
  · intro i hi
    rcases hlast i hi with hlt | rfl
    · simp only [List.getElem_append_left hlt]
      exact hinv.numbered i hlt
    · simp only [List.getElem_concat_length]
      exact SqlValue.toScalar_injective (congrFun hread .chainIndex)
  · intro i hi hne
    rcases hlast i hi with hlt | rfl
    · simp only [List.getElem_append_left hlt] at hne ⊢
      obtain ⟨j, hj, hjr⟩ := hinv.refs i hlt hne
      refine ⟨j, hj, ?_⟩
      simp only [List.getElem_append_left (Nat.lt_trans hj hlt)]
      exact hjr
    · -- the reference was checked against the records before
      simp only [List.getElem_concat_length] at hne ⊢
      have hcol : r.read .refActivityId = strScalar a.refActivityId := congrFun hread _
      cases hr : a.refActivityId with
      | none =>
        rw [hr] at hcol
        exact absurd (SqlValue.toScalar_injective (hcol.trans (show _ = SqlValue.null.toScalar from rfl))) hne
      | some ref =>
        rw [hr] at hcol
        obtain ⟨t, ht, htid⟩ := href ref hr
        obtain ⟨j, hj, rfl⟩ := List.getElem_of_mem ht
        refine ⟨j, hj, ?_⟩
        simp only [List.getElem_append_left hj]
        rw [htid, SqlValue.toScalar_injective (hcol.trans (show _ = (SqlValue.text ref).toScalar from rfl))]

/-! ## Every run -/

/-- A call of `append` whose integers are plain, as `int | None` declares them. -/
def PlainCall := { call : AppendCall // call.activity.PlainInts }

/-- What a connection runs for a call. -/
def PlainCall.prog (call : PlainCall) : Except Exc (Block Database Exc LedgerRecord) :=
  append call.1

theorem append_eq_ok {call : AppendCall} {b : Block Database Exc LedgerRecord}
    (h : append call = .ok b) : ∃ metaJson, prepare call.activity = .ok metaJson ∧
      b = appendBlock call.activity metaJson (uuid4 call.uuidBits) call.now.isoformat := by
  unfold append at h
  split at h
  · rename_i m hm
    cases h
    exact ⟨m, hm, rfl⟩
  · cases h

/-- What a serial execution of appends leaves: the invariant, and one record for each call, in the
order of the calls. -/
theorem serial_appends {nonces : List NonceRow} {log : List (PlainCall × LedgerRecord)}
    {db : Database} (h : Serial PlainCall.prog { activities := [], nonces } log db) :
    ChainInvariant db.activities ∧
      db.activities.map (fun r => r .activityId) = log.map fun e => .text e.2.activityId := by
  induction h with
  | nil => exact ⟨.empty, rfl⟩
  | @snoc log db call b record db' _ hb hrun ih =>
    obtain ⟨hinv, hids⟩ := ih
    obtain ⟨metaJson, -, rfl⟩ := append_eq_ok hb
    refine ⟨hinv.append call.2 hrun, ?_⟩
    obtain ⟨prev, hash, r, rfl, rfl, hread, -⟩ := appendBlock_spec call.2 hinv.sound hrun
    have hid : r .activityId = .text (uuid4 call.1.uuidBits) :=
      SqlValue.toScalar_injective (congrFun hread .activityId)
    simp only [List.map_append, hids, List.map_cons, List.map_nil, hid]

variable {Conn : Type} [DecidableEq Conn]

/-- **The chain invariant of the ledger.** From an empty table, after any interleaving of any number of
appends, each of them refused, failing, rolled back or committed at any point: the records are numbered
0, 1, 2, … in the order they were committed, the first links to the genesis value and each later one to
its predecessor's hash, references point backwards, the verifier answers EMPTY or VALID with the number
of records, there is one record for each call that returned, and no step of a call that raises changes
the table. -/
theorem ledger_invariant {nonces : List NonceRow} {evs : List (Event Conn Exc LedgerRecord PlainCall)}
    {m : Machine Conn Database Exc LedgerRecord PlainCall}
    (h : Run PlainCall.prog (Machine.start { activities := [], nonces }) evs m) :
    let rows := m.store.activities
    rows.map (fun r => r .chainIndex) = (List.range rows.length).map (fun i : Nat => .integer i) ∧
    (∀ r : ActivityRow, rows[0]? = some r → r .prevHash = .text GENESIS_PREV_HASH) ∧
    (∀ (i : Nat) (r s : ActivityRow), rows[i]? = some r → rows[i + 1]? = some s → s .prevHash = r .entryHash) ∧
    (∀ (i : Nat) (r : ActivityRow), rows[i]? = some r → r .refActivityId ≠ .null →
      ∃ (j : Nat) (s : ActivityRow), j < i ∧ rows[j]? = some s ∧ s .activityId = r .refActivityId) ∧
    verifyChain rows = .ok (if rows = [] then { status := .EMPTY, recordsChecked := 0 }
      else .valid rows.length (headHash rows)) ∧
    rows.map (fun r => r .activityId) = (returns evs).map (fun e => .text e.2.activityId) ∧
    (∀ ev m', Step PlainCall.prog m ev m' → ev.returned? = none →
      m'.store.activities = rows) := by
  obtain ⟨hinv, hids⟩ := serial_appends h.serial
  refine ⟨?_, ?_, ?_, ?_, hinv.sound.verify, hids, fun ev m' hstep hev => ?_⟩
  · refine List.ext_getElem (by simp) fun i hi hi' => ?_
    simp only [List.getElem_map, List.getElem_range]
    exact hinv.numbered i (by simpa using hi)
  · intro r hr
    obtain ⟨hlt, rfl⟩ := List.getElem?_eq_some_iff.mp hr
    have hlinked := hinv.sound.chained
    rw [Chained, hinv.order_eq] at hlinked
    have := ChainView.Linked.prev_zero _ hlinked hlt
    exact SqlValue.toScalar_injective (Option.some.inj this)
  · intro i r s hr hs
    obtain ⟨hlt, rfl⟩ := List.getElem?_eq_some_iff.mp hr
    obtain ⟨hlt', rfl⟩ := List.getElem?_eq_some_iff.mp hs
    have hlinked := hinv.sound.chained
    rw [Chained, hinv.order_eq] at hlinked
    have := ChainView.Linked.prev_succ _ hlinked i hlt'
    exact SqlValue.toScalar_injective (Option.some.inj this)
  · intro i r hr hne
    obtain ⟨hlt, rfl⟩ := List.getElem?_eq_some_iff.mp hr
    obtain ⟨j, hj, hjr⟩ := hinv.refs i hlt hne
    exact ⟨j, _, hj, List.getElem?_eq_getElem (Nat.lt_trans hj hlt), hjr⟩
  · rw [hstep.store_eq hev]

end FlopOffice.Proof

/-! ## A ledger of two notes -/

namespace FlopOffice.Proof

open FlopOffice.Lib FlopOffice.Python FlopOffice.Storage

section Notes

attribute [local instance] asciiRuntime

/-- What a table stores of a row. -/
def stored (row : Row) : ActivityRow := fun c => ((bindValue (row c)).toOption).getD .null

def noteActivity : Activity where
  agentDid := py "did:key:z"
  activityType := py "note"
  occurredAt := py "2026-01-01"

/-- The call that records a note under the id `uuid4 bits`. -/
def noteCall (bits : Nat) : PlainCall :=
  ⟨⟨noteActivity, bits, ⟨2026, 1, 1, 0, 0, 0⟩⟩, nofun, nofun⟩

/-- The row of a note. -/
def noteRow (bits : Nat) (index : Int) (prev hash : PyStr) : Row :=
  appendedRow noteActivity none (uuid4 bits) (noteCall bits).1.now.isoformat index prev hash

def noteHash₀ : PyStr := py "f04d4365778dbb4b3959000cfa7e414f" ++ py "e2724f68092b576b33b6319937ac2b9e"

def noteHash₁ : PyStr := py "5148ce1e91828510fead756b1565f923" ++ py "9966e0257e36d774939e7b230f21904d"

/-- The first note of an empty ledger. -/
def note₀ : ActivityRow := stored (noteRow 0 0 GENESIS_PREV_HASH noteHash₀)

/-- The note after it. -/
def note₁ : ActivityRow := stored (noteRow 1 1 noteHash₀ noteHash₁)

theorem computeEntryHash_note₀ : computeEntryHash note₀.read = .ok noteHash₀ := by
  rw [computeEntryHash_eq_packed]
  decide +kernel

theorem computeEntryHash_note₁ : computeEntryHash note₁.read = .ok noteHash₁ := by
  rw [computeEntryHash_eq_packed]
  decide +kernel

/-- A note is appended where its number says, under its own hash. -/
theorem noteRow_run (bits : Nat) (rows : List ActivityRow) {prev hash : PyStr} {index : Int}
    {r : ActivityRow} (hlink : nextLink (selectHead ⟨rows, []⟩) = .ok (index, .str prev))
    (hbind : ∀ c, bindValue (noteRow bits index prev hash c) = .ok (r c))
    (hread : r.read = noteRow bits index prev hash) (hhash : computeEntryHash r.read = .ok hash)
    (hcon : constraintsHold rows r = true) :
    (appendBlock noteActivity none (uuid4 bits) (noteCall bits).1.now.isoformat).run ⟨rows, []⟩ =
      .ok (⟨uuid4 bits, index, .str prev, hash, (noteCall bits).1.now.isoformat⟩,
        ⟨rows ++ [r], []⟩) := by
  refine appendBlock_run_eq_ok.mpr ⟨index, .str prev, hash, r, hlink, nofun, ?_, hbind, hcon, rfl,
    rfl⟩
  rw [← hhash, hread]
  exact (computeEntryHash_congr fun c hc => appendedRow_of_ne (mem_CHAINED_FIELDS.mp hc)).symm

/-- The ledger of the two notes. -/
def notes : List ActivityRow := [note₀, note₁]

theorem serial_notes : ∃ first second, Serial PlainCall.prog (⟨[], []⟩ : Database)
    [(noteCall 0, first), (noteCall 1, second)] ⟨notes, []⟩ := by
  have hprepare : prepare noteActivity = .ok none := by decide
  have hprog : ∀ bits, (noteCall bits).prog = .ok (appendBlock noteActivity none (uuid4 bits)
      (noteCall bits).1.now.isoformat) := by
    intro bits
    simp only [PlainCall.prog, append, noteCall, hprepare]
  have hrun₀ := noteRow_run 0 [] (r := note₀) rfl (fun c => by cases c <;> decide)
    (funext fun c => by cases c <;> decide)
    computeEntryHash_note₀ (by decide)
  have hrun₁ := noteRow_run 1 [note₀] (r := note₁) rfl (fun c => by cases c <;> decide)
    (funext fun c => by cases c <;> decide)
    computeEntryHash_note₁ (by decide)
  exact ⟨_, _, (Serial.nil.snoc (hprog 0) hrun₀).snoc (hprog 1) hrun₁⟩

theorem ledger_invariant_notes :
    ∃ evs m, Run PlainCall.prog (Machine.start ⟨[], []⟩ : Machine Unit _ _ _ _) evs m ∧
      verifyChain m.store.activities = .ok (.valid 2 (headHash m.store.activities)) := by
  obtain ⟨_, _, hserial⟩ := serial_notes
  obtain ⟨evs, hrun, -⟩ := hserial.run ()
  obtain ⟨-, -, -, -, hverify, -⟩ := ledger_invariant hrun
  exact ⟨evs, _, hrun, hverify⟩

theorem notes_invariant : ChainInvariant notes := by
  obtain ⟨_, _, hserial⟩ := serial_notes
  exact (serial_appends hserial).1

theorem verifyChain_notes : verifyChain notes = .ok (.valid 2 (some (.str noteHash₁))) := by
  rw [notes_invariant.sound.verify, headHash, notes_invariant.order_eq]
  rfl

end Notes

end FlopOffice.Proof
