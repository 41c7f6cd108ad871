/-
# FlopOffice.Storage.Db — the SQLite tables, and the statements the sources run on them.

A value in a table is a `SqlValue`; a Python value is bound to a parameter by `bindValue`, which is
where `bool` becomes an integer, where an integer outside 64 bits raises `OverflowError`, and where a
lone surrogate raises `UnicodeEncodeError`. Reading a value back (`SqlValue.toScalar`) is total and
injective, and what was bound comes back as it was, booleans excepted (`bindValue_roundtrip`).

Column affinity is not modelled: the sources bind `str` or `None` to TEXT columns and `int`, `bool` or
`None` to INTEGER columns, where it does nothing. `seen_signatures` has no statement in the sources,
and no statement reads `nonces.updated_at`; both are left out.
-/
import FlopOffice.Python.Json

namespace FlopOffice.Storage

open FlopOffice.Python

/-! ## Values -/

/-- A value as SQLite stores it. -/
inductive SqlValue
  | null
  | integer (i : Int)
  | real (f : PyFloat)
  | text (s : PyStr)
  | blob (b : Bytes)
  deriving DecidableEq

/-- Largest integer SQLite can store. -/
def MAX_STORABLE_NONCE : Int := 2 ^ 63 - 1

/-- `i` fits SQLite's 64-bit integers. -/
def storable (i : Int) : Bool := decide (-(2 ^ 63) ≤ i) && decide (i ≤ MAX_STORABLE_NONCE)

theorem storable_iff {i : Int} :
    storable i = true ↔ -9223372036854775808 ≤ i ∧ i ≤ 9223372036854775807 := by
  rw [storable, Bool.and_eq_true, decide_eq_true_eq, decide_eq_true_eq]
  exact Iff.rfl

/-- Bind a Python value to a statement parameter. -/
def bindValue : Scalar → Except Exc SqlValue
  | .none => .ok .null
  | .bool b => .ok (.integer (if b then 1 else 0))
  | .int i => if storable i then .ok (.integer i) else .error ⟨.overflowError, []⟩
  | .float .nan => .ok .null
  | .float f => .ok (.real f)
  | .str s => (utf8 s).map fun _ => .text s
  | .bytes b => .ok (.blob b)

/-- What `row[name]` gives for a stored value. -/
def SqlValue.toScalar : SqlValue → Scalar
  | .null => .none
  | .integer i => .int i
  | .real f => .float f
  | .text s => .str s
  | .blob b => .bytes b

theorem SqlValue.toScalar_injective : Function.Injective SqlValue.toScalar := by
  intro a b h
  cases a <;> cases b <;> simp_all [SqlValue.toScalar]

/-- A value whose storage is faithful: neither a `bool` nor a NaN. -/
def Faithful : Scalar → Prop
  | .bool _ | .float .nan => False
  | _ => True

/-- **What is bound is read back**, unless it is a `bool` (read back as 0 or 1) or a NaN. -/
theorem bindValue_roundtrip {x : Scalar} {v : SqlValue} (hx : Faithful x)
    (h : bindValue x = .ok v) : v.toScalar = x := by
  cases x with
  | none | bytes =>
    cases h
    rfl
  | bool b => exact hx.elim
  | int i =>
    simp only [bindValue] at h
    split at h <;> cases h
    rfl
  | float f =>
    cases f with
    | nan => exact hx.elim
    | inf | finite =>
      cases h
      rfl
  | str s =>
    simp only [bindValue] at h
    cases hs : utf8 s with
    | error e => rw [hs] at h; cases h
    | ok b => rw [hs] at h; cases h; rfl

/-- `int(row[name])`. -/
def SqlValue.pyInt [PyRuntime] : SqlValue → Except Exc Int
  | .integer i => .ok i
  | .text s => parseInt s
  | .blob b => parseInt (b.map fun x =>
      if x < 0x80 then ⟨x.toNat, byte_lt x⟩ else cp '?')
  | .real (.finite neg mant exp) =>
    let n : Int := if exp < 0 then mant / 2 ^ exp.natAbs else mant * 2 ^ exp.natAbs
    .ok (if neg then -n else n)
  | .real (.inf _) => .error ⟨.overflowError, []⟩
  | .real .nan => .error ⟨.valueError, []⟩
  | .null => .error ⟨.typeError, []⟩

/-- SQLite's order of values: NULL, numbers, text, blobs. -/
def SqlValue.rank : SqlValue → Nat
  | .null => 0
  | .integer _ | .real _ => 1
  | .text _ => 2
  | .blob _ => 3

/-- `a <= b` in an `ORDER BY`. -/
def SqlValue.le (a b : SqlValue) : Bool :=
  decide (a.rank < b.rank) || (a.rank == b.rank &&
    match a, b with
    | .null, _ => true
    | .blob x, .blob y => decide (x ≤ y)
    | a, b => keyLe a.toScalar b.toScalar)

@[simp] theorem SqlValue.le_integer (i j : Int) :
    SqlValue.le (.integer i) (.integer j) = decide (i ≤ j) := by
  have hcast : ((i : Rat) ≤ (j : Rat)) ↔ i ≤ j := Rat.intCast_le_intCast
  simp [SqlValue.le, SqlValue.rank, SqlValue.toScalar, keyLe, numKey, hcast]

/-! ## The `activities` table -/

/-- The columns of `activities`. -/
inductive Column
  | activityId | chainIndex | agentDid | activityType | taskId | refActivityId | tcRoom | tcSeq
  | tcNonce | signedPayloadHash | signature | resultHash | providerId | model | costAmount
  | costUnit | occurredAt | recordedAt | metaJson | prevHash | entryHash
  deriving DecidableEq, Repr

/-- The name of a column. -/
def Column.name : Column → PyStr
  | activityId => py "activity_id"
  | chainIndex => py "chain_index"
  | agentDid => py "agent_did"
  | activityType => py "activity_type"
  | taskId => py "task_id"
  | refActivityId => py "ref_activity_id"
  | tcRoom => py "tc_room"
  | tcSeq => py "tc_seq"
  | tcNonce => py "tc_nonce"
  | signedPayloadHash => py "signed_payload_hash"
  | signature => py "signature"
  | resultHash => py "result_hash"
  | providerId => py "provider_id"
  | model => py "model"
  | costAmount => py "cost_amount"
  | costUnit => py "cost_unit"
  | occurredAt => py "occurred_at"
  | recordedAt => py "recorded_at"
  | metaJson => py "meta_json"
  | prevHash => py "prev_hash"
  | entryHash => py "entry_hash"

/-- All columns, in the order of the `INSERT`. -/
def Column.all : List Column :=
  [activityId, chainIndex, agentDid, activityType, taskId, refActivityId, tcRoom, tcSeq, tcNonce,
   signedPayloadHash, signature, resultHash, providerId, model, costAmount, costUnit, occurredAt,
   recordedAt, metaJson, prevHash, entryHash]

theorem Column.mem_all (c : Column) : c ∈ Column.all := by cases c <;> decide

/-- A row as the program builds it: a value under each column name. -/
abbrev Row := Column → Scalar

/-- A row of the table. -/
abbrev ActivityRow := Column → SqlValue

/-- A row of the table as the program reads it. -/
def ActivityRow.read (r : ActivityRow) : Row := fun c => (r c).toScalar

/-- `ORDER BY chain_index ASC`. -/
def orderByChainIndex (rows : List ActivityRow) : List ActivityRow :=
  rows.insertionSort fun r s => SqlValue.le (r .chainIndex) (s .chainIndex) = true

theorem orderByChainIndex_perm (rows : List ActivityRow) : (orderByChainIndex rows).Perm rows :=
  List.perm_insertionSort _ _

/-- The columns declared NOT NULL. -/
def notNull : List Column :=
  [.chainIndex, .agentDid, .activityType, .costUnit, .occurredAt, .recordedAt, .prevHash, .entryHash]

/-- The columns declared INTEGER; the others are TEXT. -/
def Column.isInteger : Column → Bool
  | chainIndex | tcSeq | tcNonce => true
  | _ => false

/-- `v` is a value of the column's declared type; NULL is one unless the column is NOT NULL. -/
def Column.admits (c : Column) : SqlValue → Bool
  | .null => c ∉ notNull
  | .integer i => c.isInteger && storable i
  | .text s => !c.isInteger && s.all fun x => !x.isSurrogate
  | .real _ | .blob _ => false

/-- Every column of the row holds a value of its declared type. -/
def ActivityRow.Typed (r : ActivityRow) : Prop := ∀ c : Column, c.admits (r c) = true

/-- The `chain_index` of a row that has an integer there. -/
def ActivityRow.index (r : ActivityRow) : Int :=
  match r .chainIndex with
  | .integer i => i
  | _ => -1

theorem ActivityRow.index_eq {r : ActivityRow} {i : Int} (h : r .chainIndex = .integer i) :
    r.index = i := by
  rw [ActivityRow.index, h]

theorem ActivityRow.Typed.chainIndex {r : ActivityRow} (h : r.Typed) :
    r .chainIndex = .integer r.index ∧ storable r.index = true := by
  have hc := h .chainIndex
  cases hv : r .chainIndex with
  | integer i =>
    rw [hv] at hc
    simpa [ActivityRow.index, hv, Column.admits, Column.isInteger] using hc
  | null | text | real | blob =>
    rw [hv] at hc
    exact absurd hc (by simp [Column.admits, notNull, Column.isInteger])

/-- On rows with integer positions, `ORDER BY chain_index` is a sort by number. -/
theorem orderByChainIndex_eq {rows : List ActivityRow}
    (h : ∀ r ∈ rows, r .chainIndex = .integer r.index) :
    orderByChainIndex rows = rows.insertionSort fun r s => r.index ≤ s.index := by
  have hsort := List.map_insertionSort
    (fun r s : ActivityRow => SqlValue.le (r .chainIndex) (s .chainIndex) = true)
    (fun r s : ActivityRow => r.index ≤ s.index) id rows (fun r hr s hs => by
      rw [h r hr, h s hs, SqlValue.le_integer, decide_eq_true_eq]
      rfl)
  simpa [orderByChainIndex] using hsort

/-- A list of records numbered by their places is the chain order of any table with these records. -/
theorem orderByChainIndex_of_numbered {rows ss : List ActivityRow} (hperm : rows.Perm ss)
    (hint : ∀ r ∈ rows, r .chainIndex = .integer r.index)
    (hpos : ∀ i (hi : i < ss.length), (ss[i]).index = i) : orderByChainIndex rows = ss := by
  rw [orderByChainIndex_eq hint]
  have hsorted : ss.Pairwise fun r s => r.index ≤ s.index := by
    rw [List.pairwise_iff_getElem]
    intro i j hi hj hij
    rw [hpos i hi, hpos j hj]
    omega
  have htotal : Std.Total fun r s : ActivityRow => r.index ≤ s.index :=
    ⟨fun r s => Int.le_total r.index s.index⟩
  have htrans : IsTrans ActivityRow fun r s => r.index ≤ s.index :=
    ⟨fun _ _ _ hrs hst => Int.le_trans hrs hst⟩
  refine ((List.perm_insertionSort _ rows).trans hperm).eq_of_pairwise ?_
    (List.pairwise_insertionSort _ rows) hsorted
  intro r s hr hs hrs hsr
  obtain ⟨i, hi, rfl⟩ := List.getElem_of_mem
    (hperm.mem_iff.mp ((List.perm_insertionSort _ rows).mem_iff.mp hr))
  obtain ⟨j, hj, rfl⟩ := List.getElem_of_mem hs
  rw [hpos i hi, hpos j hj] at hrs hsr
  have hij : i = j := by omega
  subst hij
  rfl

/-- SQL's `length` of text: the characters before the first NUL. -/
def sqlLength : SqlValue → Option Nat
  | .text s => some (s.takeWhile fun c => c.val != 0).length
  | .blob b => some b.length
  | _ => none

/-- The units `cost_unit` may hold. -/
def costUnits : List PyStr := [py "NONE", py "FLOP_TEST", py "USD"]

/-- Every constraint of the schema an inserted row has to meet. -/
def constraintsHold (rows : List ActivityRow) (r : ActivityRow) : Bool :=
  notNull.all (fun c => r c != .null) &&
  -- PRIMARY KEY and UNIQUE
  [Column.activityId, .chainIndex, .entryHash].all (fun c => rows.all fun s => s c != r c) &&
  -- CHECK
  costUnits.any (fun u => r .costUnit == .text u) &&
  sqlLength (r .entryHash) == some 64 && sqlLength (r .prevHash) == some 64 &&
  SqlValue.le (.integer 0) (r .chainIndex) &&
  -- FOREIGN KEY
  (r .refActivityId == .null || (r :: rows).any fun s => s .activityId == r .refActivityId)

/-! ## The `nonces` table -/

/-- A row of `nonces`. -/
structure NonceRow where
  agentDid : PyStr
  scope : PyStr
  lastNonce : Int
  deriving DecidableEq

/-! ## The database -/

/-- The tables the modelled code reads and writes. -/
structure Database where
  activities : List ActivityRow := []
  nonces : List NonceRow := []

/-- Bind every parameter of an `INSERT`. -/
def bindRow (row : Row) : Except Exc ActivityRow := do
  let values ← Column.all.mapM fun c => bindValue (row c)
  pure fun c => (Column.all.zip values).lookup c |>.getD .null

/-- `INSERT INTO activities (...) VALUES (...)`. -/
def insertActivity (row : Row) (db : Database) : Except Exc (Unit × Database) := do
  let r ← bindRow row
  if constraintsHold db.activities r then
    pure ((), { db with activities := db.activities ++ [r] })
  else throw ⟨.databaseError, []⟩

/-- `SELECT chain_index, entry_hash FROM activities ORDER BY chain_index DESC LIMIT 1`. -/
def selectHead (db : Database) : Option ActivityRow := (orderByChainIndex db.activities).getLast?

/-- `SELECT 1 FROM activities WHERE activity_id = ?`. -/
def activityExists (activityId : PyStr) (db : Database) : Except Exc Bool := do
  let v ← bindValue (.str activityId)
  pure (db.activities.any fun r => r .activityId == v)

/-- `SELECT last_nonce FROM nonces WHERE agent_did = ? AND scope = ?`. -/
def selectNonce (agentDid scope : PyStr) (db : Database) : Except Exc (Option Int) := do
  let _ ← bindValue (.str agentDid)
  let _ ← bindValue (.str scope)
  pure ((db.nonces.find? fun r => r.agentDid == agentDid && r.scope == scope).map
    NonceRow.lastNonce)

/-- `INSERT INTO nonces ... ON CONFLICT(agent_did, scope) DO UPDATE SET last_nonce = ...`. -/
def upsertNonce (agentDid scope : PyStr) (nonce : Int) (db : Database) :
    Except Exc (Unit × Database) := do
  let _ ← bindValue (.str agentDid)
  let _ ← bindValue (.str scope)
  let _ ← bindValue (.int nonce)
  if 0 ≤ nonce then
    let hit := fun r : NonceRow => r.agentDid == agentDid && r.scope == scope
    let nonces := if db.nonces.any hit then
        db.nonces.map fun r => if hit r then { r with lastNonce := nonce } else r
      else db.nonces ++ [⟨agentDid, scope, nonce⟩]
    pure ((), { db with nonces })
  else throw ⟨.databaseError, []⟩

/-! ## What an insert does -/

theorem bindValue_str {s : PyStr} {v : SqlValue} :
    bindValue (.str s) = .ok v ↔ (∃ b, utf8 s = .ok b) ∧ v = .text s := by
  simp only [bindValue]
  cases utf8 s <;> simp [Except.map, eq_comm]

theorem activityExists_eq_ok {id : PyStr} {db : Database} {found : Bool} :
    activityExists id db = .ok found ↔ (∃ b, utf8 id = .ok b) ∧
      found = db.activities.any fun r => r .activityId == .text id := by
  simp only [activityExists, bind_eq_ok, bindValue_str, pure, Except.pure, Except.ok.injEq]
  constructor
  · rintro ⟨v, ⟨hb, rfl⟩, rfl⟩
    exact ⟨hb, rfl⟩
  · rintro ⟨hb, rfl⟩
    exact ⟨_, ⟨hb, rfl⟩, rfl⟩

theorem lookup_zip_map {β : Type} (f : Column → β) (cs : List Column) (c : Column) (hc : c ∈ cs) :
    (cs.zip (cs.map f)).lookup c = some (f c) := by
  induction cs with
  | nil => cases hc
  | cons d cs ih =>
    rw [List.map_cons, List.zip_cons_cons, List.lookup_cons]
    by_cases hd : c = d
    · subst hd
      simp
    · rw [beq_false_of_ne hd]
      exact ih ((List.mem_cons.mp hc).resolve_left hd)

/-- A row that is made column by column. -/
theorem mapRow_eq_ok_iff {f : Column → Except Exc SqlValue} {r : ActivityRow} :
    (do let values ← Column.all.mapM f
        pure fun c => (Column.all.zip values).lookup c |>.getD .null) = .ok r ↔
      ∀ c, f c = .ok (r c) := by
  simp only [bind_eq_ok, mapM_eq_ok_iff, pure, Except.pure, Except.ok.injEq]
  constructor
  · rintro ⟨values, hv, rfl⟩ c
    have hmap : ∀ {cs : List Column} {vs : List SqlValue},
        List.Forall₂ (fun c v => f c = .ok v) cs vs →
          vs = cs.map fun c => ((f c).toOption).getD .null := by
      intro cs vs h
      induction h with
      | nil => rfl
      | cons hcv _ ih => rw [List.map_cons, ← ih, hcv]; rfl
    rw [hmap hv]
    beta_reduce
    rw [lookup_zip_map _ _ _ (Column.mem_all c)]
    obtain ⟨v, -, hcv⟩ := exists_right_of_forall₂ hv (Column.mem_all c)
    rw [hcv]
    rfl
  · intro h
    refine ⟨Column.all.map r, ?_, ?_⟩
    · rw [List.forall₂_map_right_iff, List.forall₂_same]
      exact fun c _ => h c
    · funext c
      rw [lookup_zip_map _ _ _ (Column.mem_all c)]
      rfl

/-- Binding a row binds each of its values. -/
theorem bindRow_eq_ok_iff {row : Row} {r : ActivityRow} :
    bindRow row = .ok r ↔ ∀ c, bindValue (row c) = .ok (r c) := mapRow_eq_ok_iff

/-- **An insert that succeeds appends exactly the bound row**, which meets every constraint. -/
theorem insertActivity_eq_ok_iff {row : Row} {db db' : Database} :
    insertActivity row db = .ok ((), db') ↔
      ∃ r, (∀ c, bindValue (row c) = .ok (r c)) ∧ constraintsHold db.activities r = true ∧
        db' = { db with activities := db.activities ++ [r] } := by
  simp only [insertActivity, bind_eq_ok, bindRow_eq_ok_iff]
  refine exists_congr fun r => and_congr_right fun _ => ?_
  split
  · rename_i hc
    simp [hc, pure, Except.pure, eq_comm]
  · rename_i hc
    simp [hc, throw, throwThe, MonadExceptOf.throw]

end FlopOffice.Storage
