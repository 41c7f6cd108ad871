/-
# FlopOffice.Proof.FirstBreak — the verifier reports the first break, and nothing but it.

`Agrees` is what a record has to show at its place in chain order; it reads the table and not the
verifier's state. The loop walks over the longest prefix of records that agree and examines the next
one (`verifyLoop_break`); what it says about that record is `Names`: the record, and the first of the
three conditions that the record violates.
-/
import FlopOffice.Proof.LedgerRuns

namespace FlopOffice.Proof

open FlopOffice.Lib FlopOffice.Python FlopOffice.Storage

section FirstBreak

variable [PyRuntime]

/-! ## Records at their places -/

/-- What the record at place `i` has to link to. -/
def expectedPrev (rows : List ActivityRow) : Nat → Scalar
  | 0 => .str GENESIS_PREV_HASH
  | i + 1 => match rows[i]? with
    | some row => row.read .entryHash
    | none => .none

/-- The record at place `i` is in position, links to the record before it, and carries its own hash. -/
structure Agrees (rows : List ActivityRow) (i : Nat) (row : ActivityRow) : Prop where
  position : (row .chainIndex).pyInt = .ok (i : Int)
  link : row.read .prevHash = expectedPrev rows i
  hash : ∃ h, computeEntryHash (chainedFields row.read) = .ok h ∧ row.read .entryHash = .str h

/-- What a report names: the record, and the first of the three conditions that it violates. -/
structure Names (rows : List ActivityRow) (i : Nat) (row : ActivityRow) (b : Break) : Prop where
  activityId : b.activityId = row.read .activityId
  chainIndex : (row .chainIndex).pyInt = .ok b.chainIndex
  kind : b.kind =
    if b.chainIndex ≠ i then .INDEX_GAP
    else if row.read .prevHash ≠ expectedPrev rows i then
      if i = 0 then .BAD_GENESIS else .LINK_MISMATCH
    else .HASH_MISMATCH

/-- What the verifier needs of a record to say what it finds: a number for its position, texts for the
two numbers if they differ, and a hash if its position and its link agree. -/
structure Examinable (rows : List ActivityRow) (i : Nat) (row : ActivityRow) : Prop where
  position : ∃ n, (row .chainIndex).pyInt = .ok n ∧
    (n ≠ i → (∃ t, strInt i = .ok t) ∧ ∃ t, strInt n = .ok t)
  hash : (row .chainIndex).pyInt = .ok (i : Int) → row.read .prevHash = expectedPrev rows i →
    ∃ h, computeEntryHash (chainedFields row.read) = .ok h

theorem Agrees.examinable {rows : List ActivityRow} {i : Nat} {row : ActivityRow}
    (h : Agrees rows i row) : Examinable rows i row where
  position := ⟨i, h.position, fun hne => absurd rfl hne⟩
  hash _ _ := h.hash.imp fun _ hh => hh.1

/-! ## Chains, place by place -/

theorem ledgerView_index_eq_natCast {row : ActivityRow} {i : Nat} :
    ledgerView.index row = i ↔ (row .chainIndex).pyInt = .ok (i : Int) := by
  simp only [ledgerView]
  split
  · rename_i n hn
    rw [hn]
    exact ⟨congrArg Except.ok, Except.ok.inj⟩
  · rename_i e he
    rw [he]
    exact iff_of_false (by omega) fun h => by cases h

theorem tip_take {rows : List ActivityRow} {i : Nat} (h : i ≤ rows.length) :
    ledgerView.tip (some (.str GENESIS_PREV_HASH)) (rows.take i) = some (expectedPrev rows i) := by
  cases i with
  | zero => rfl
  | succ i =>
    have hi : i < rows.length := h
    have hrow : rows[i]? = some rows[i] := List.getElem?_eq_getElem hi
    have hlast : (rows.take (i + 1)).getLast? = some rows[i] := by
      rw [List.getLast?_take, if_neg (Nat.succ_ne_zero i), Nat.add_sub_cancel, hrow]
      rfl
    simp only [ChainView.tip, hlast, expectedPrev, hrow]
    rfl

/-- A prefix is linked exactly if its records agree. -/
theorem linked_take_iff {rows : List ActivityRow} {k : Nat} (hk : k ≤ rows.length) :
    ledgerView.Linked (some (.str GENESIS_PREV_HASH)) 0 (rows.take k) ↔
      ∀ i < k, ∀ row, rows[i]? = some row → Agrees rows i row := by
  rw [ChainView.linked_iff_forall]
  have hplace : ∀ {i : Nat} {row : ActivityRow}, i < k → rows[i]? = some row →
      ((ledgerView.index row = (0 + i : Nat) ∧
        ledgerView.prev row = ledgerView.tip (some (.str GENESIS_PREV_HASH)) ((rows.take k).take i) ∧
        ledgerView.hash (ledgerView.content row) = ledgerView.entry row) ↔ Agrees rows i row) := by
    intro i row hi hrow
    have htake : (rows.take k).take i = rows.take i := by
      rw [List.take_take, Nat.min_eq_left hi.le]
    rw [Nat.zero_add, ledgerView_index_eq_natCast, htake, tip_take (hi.le.trans hk)]
    constructor
    · rintro ⟨hpos, hprev, hhash⟩
      refine ⟨hpos, Option.some.inj hprev, ?_⟩
      replace hhash : ledgerView.hash (chainedFields row.read) = some (row.read .entryHash) := hhash
      simp only [ledgerView] at hhash
      split at hhash
      · rename_i h hh
        exact ⟨h, hh, (Option.some.inj hhash).symm⟩
      · cases hhash
    · rintro ⟨hpos, hprev, h, hh, hentry⟩
      refine ⟨hpos, congrArg some hprev, ?_⟩
      show ledgerView.hash (chainedFields row.read) = some (row.read .entryHash)
      rw [hentry]
      exact ledgerView_hash_eq.mpr hh
  constructor
  · intro h i hi row hrow
    exact (hplace hi hrow).mp (h i row (by rw [List.getElem?_take_of_lt hi, hrow]))
  · intro h i row hrow
    obtain ⟨hi, hrow⟩ : i < k ∧ rows[i]? = some row := by
      rw [List.getElem?_take] at hrow
      split at hrow
      · exact ⟨by assumption, hrow⟩
      · cases hrow
    exact (hplace hi hrow).mpr (h i hi row hrow)

/-- The table is a chain exactly if every record agrees. -/
theorem chained_iff_agrees {activities : List ActivityRow} :
    Chained activities ↔ ∀ i row, (orderByChainIndex activities)[i]? = some row →
      Agrees (orderByChainIndex activities) i row := by
  have hall := linked_take_iff (Nat.le_refl (orderByChainIndex activities).length)
  rw [List.take_length] at hall
  rw [Chained, hall]
  constructor
  · intro h i row hrow
    exact h i (List.getElem?_eq_some_iff.mp hrow).1 row hrow
  · intro h i _ row hrow
    exact h i row hrow

/-! ## The loop at a record that does not agree -/

/-- The record is reported. -/
theorem verifyLoop_break {rows : List ActivityRow} {row : ActivityRow} {prev : PyStr} {n : Nat}
    (hprev : expectedPrev rows n = .str prev) (hno : ¬ Agrees rows n row)
    (h : Examinable rows n row) (rest : List ActivityRow) :
    ∃ b, verifyLoop prev n (row :: rest) = .ok ⟨.BROKEN, n, none, some b⟩ ∧ Names rows n row b := by
  obtain ⟨index, hindex, htexts⟩ := h.position
  unfold verifyLoop
  rw [hindex]
  simp only [bind, Except.bind]
  by_cases hi : index = n
  · rw [if_neg (not_not.mpr hi)]
    by_cases hp : row.read .prevHash = .str prev
    · rw [if_neg (not_not.mpr hp)]
      have hlink : row.read .prevHash = expectedPrev rows n := hp.trans hprev.symm
      obtain ⟨e, he⟩ := h.hash (by rw [hindex, hi]) hlink
      rw [he]
      have hentry : Scalar.str e ≠ row.read .entryHash := fun heq =>
        hno ⟨by rw [hindex, hi], hlink, e, he, heq.symm⟩
      simp only [if_pos hentry]
      exact ⟨_, rfl, rfl, hindex, by simp [hi, hlink]⟩
    · rw [if_pos hp]
      have hlink : row.read .prevHash ≠ expectedPrev rows n := by rwa [hprev]
      exact ⟨_, rfl, rfl, hindex, by simp [hi, hlink]⟩
  · rw [if_pos hi]
    obtain ⟨⟨t, ht⟩, t', ht'⟩ := htexts hi
    rw [ht, ht']
    exact ⟨_, rfl, rfl, hindex, by simp [hi]⟩

/-- What is answered could be examined. -/
theorem examinable_of_verifyLoop {rows rest : List ActivityRow} {row : ActivityRow} {prev : PyStr}
    {n : Nat} {res : VerifyResult} (hprev : expectedPrev rows n = .str prev)
    (h : verifyLoop prev n (row :: rest) = .ok res) : Examinable rows n row := by
  simp only [verifyLoop, bind_eq_ok] at h
  obtain ⟨index, hindex, h⟩ := h
  constructor
  · refine ⟨index, hindex, fun hne => ?_⟩
    rw [if_pos hne] at h
    obtain ⟨t, ht, h⟩ := bind_eq_ok.mp h
    obtain ⟨t', ht', -⟩ := bind_eq_ok.mp h
    exact ⟨⟨t, ht⟩, t', ht'⟩
  · intro hpos hlink
    rw [hindex] at hpos
    rw [if_neg (not_not.mpr (Except.ok.inj hpos)), if_neg (not_not.mpr (hlink.trans hprev))] at h
    obtain ⟨e, he, -⟩ := bind_eq_ok.mp h
    exact ⟨e, he⟩

/-! ## The report -/

/-- The records before place `k` agree, and the record at place `k` does not. -/
def BreaksAt (rows : List ActivityRow) (k : Nat) (row : ActivityRow) : Prop :=
  rows[k]? = some row ∧ (∀ i < k, ∀ r, rows[i]? = some r → Agrees rows i r) ∧ ¬ Agrees rows k row

/-- There is one first break. -/
theorem BreaksAt.unique {rows : List ActivityRow} {k k' : Nat} {row row' : ActivityRow}
    (h : BreaksAt rows k row) (h' : BreaksAt rows k' row') : k' = k ∧ row' = row := by
  have hk : k' = k := by
    rcases Nat.lt_trichotomy k' k with hlt | heq | hgt
    · exact absurd (h.2.1 k' hlt row' h'.1) h'.2.2
    · exact heq
    · exact absurd (h'.2.1 k hgt row h.1) h.2.2
  subst hk
  exact ⟨rfl, Option.some.inj (h'.1.symm.trans h.1)⟩

/-- A table that is no chain breaks somewhere first, and the verifier gets there. -/
theorem exists_breaksAt {activities : List ActivityRow} (h : ¬ Chained activities) :
    ∃ k row rest prev, BreaksAt (orderByChainIndex activities) k row ∧
      expectedPrev (orderByChainIndex activities) k = .str prev ∧
      verifyChain activities = verifyLoop prev k (row :: rest) := by
  obtain ⟨pre, row, rest, hrows, hpre, hbreak⟩ := ChainView.exists_first_break _ h
  have hk : pre.length ≤ (orderByChainIndex activities).length := by
    rw [hrows, List.length_append]
    omega
  have hrow : (orderByChainIndex activities)[pre.length]? = some row := by
    rw [hrows, List.getElem?_append_right (Nat.le_refl _), Nat.sub_self]
    rfl
  have htake : (orderByChainIndex activities).take pre.length = pre := by
    rw [hrows, List.take_left']
    rfl
  have htakes : (orderByChainIndex activities).take (pre.length + 1) = pre ++ [row] := by
    rw [List.take_add_one, htake, hrow]
    rfl
  obtain ⟨last, hlast, hloop⟩ := verifyLoop_append hpre (row :: rest)
  rw [← htake, tip_take hk] at hlast
  have hagree := (linked_take_iff hk).mp (htake.symm ▸ hpre)
  refine ⟨pre.length, row, rest, last, ⟨hrow, hagree, fun hrow' => hbreak ?_⟩,
    Option.some.inj hlast, ?_⟩
  · have hk' : pre.length + 1 ≤ (orderByChainIndex activities).length :=
      (List.getElem?_eq_some_iff.mp hrow).1
    rw [← htakes, linked_take_iff hk']
    intro i hi r hr
    rcases Nat.lt_succ_iff_lt_or_eq.mp hi with hi | rfl
    · exact hagree i hi r hr
    · rw [hrow] at hr
      cases hr
      exact hrow'
  · rw [Nat.zero_add] at hloop
    rw [← hloop, ← hrows]
    unfold verifyChain
    split
    · rename_i hnil
      rw [hnil] at hrow
      cases hrow
    · rfl

/-- On records of declared types, the record where the chain breaks can be examined. -/
theorem BreaksAt.examinable {activities : List ActivityRow} (htyped : ∀ r ∈ activities, r.Typed)
    {k : Nat} {row : ActivityRow} (h : BreaksAt (orderByChainIndex activities) k row) :
    Examinable (orderByChainIndex activities) k row := by
  obtain ⟨hrow, hagree, -⟩ := h
  have htypes : ∀ {i : Nat} {r : ActivityRow}, (orderByChainIndex activities)[i]? = some r → r.Typed :=
    fun hr => htyped _ ((orderByChainIndex_perm activities).mem_iff.mp (List.mem_of_getElem? hr))
  obtain ⟨hindex, hstore⟩ := (htypes hrow).chainIndex
  refine ⟨⟨row.index, by rw [hindex]; rfl, fun _ => ⟨?_, strInt_of_storable hstore⟩⟩, fun _ _ => ?_⟩
  · -- the record before has the place before for its position, and stores it
    cases k with
    | zero => exact ⟨_, rfl⟩
    | succ k =>
      have hk := (List.getElem?_eq_some_iff.mp hrow).1
      have hlast : (orderByChainIndex activities)[k]? = some (orderByChainIndex activities)[k] :=
        List.getElem?_eq_getElem (by omega)
      obtain ⟨hindex', hstore'⟩ := (htypes hlast).chainIndex
      have hpos := (hagree k (Nat.lt_succ_self k) _ hlast).position
      rw [hindex'] at hpos
      rw [show (orderByChainIndex activities)[k].index = k from Except.ok.inj hpos, storable_iff]
        at hstore'
      refine strInt_isOk_iff.mpr (Nat.lt_of_lt_of_le (m := 10 ^ 19) ?_ ?_)
      · omega
      · exact Nat.pow_le_pow_right (by decide) (by decide)
  · obtain ⟨data, -, hhash⟩ := computeEntryHash_of_typed (htypes hrow)
    exact ⟨_, (computeEntryHash_chained _).trans hhash⟩

/-- **The verifier reports exactly the first break.** On every table of declared types it answers: EMPTY
for the empty table, VALID if every record agrees, and otherwise BROKEN, with the number of records
before the first that does not, and that record named. -/
theorem verifyChain_reports {activities : List ActivityRow} (htyped : ∀ r ∈ activities, r.Typed) :
    ∃ res, verifyChain activities = .ok res ∧
      (res.status = .EMPTY ↔ activities = []) ∧
      (res.status = .VALID ↔ activities ≠ [] ∧ ∀ i row,
        (orderByChainIndex activities)[i]? = some row → Agrees (orderByChainIndex activities) i row) ∧
      (res.status = .BROKEN ↔ ∃ k row, BreaksAt (orderByChainIndex activities) k row) ∧
      ∀ k row, BreaksAt (orderByChainIndex activities) k row → res.recordsChecked = k ∧
        ∃ b, res.firstBreak = some b ∧ Names (orderByChainIndex activities) k row b := by
  have hunbroken : Chained activities → ¬ ∃ k row, BreaksAt (orderByChainIndex activities) k row :=
    fun h ⟨k, row, hrow, _, hno⟩ => hno (chained_iff_agrees.mp h k row hrow)
  by_cases h : Chained activities
  · have hnone := hunbroken h
    by_cases hnil : activities = []
    · subst hnil
      refine ⟨_, rfl, iff_of_true rfl rfl, iff_of_false nofun fun hv => hv.1 rfl,
        iff_of_false nofun hnone, fun k row hb => absurd ⟨k, row, hb⟩ hnone⟩
    · refine ⟨_, verifyChain_of_chained h hnil, iff_of_false nofun hnil,
        iff_of_true rfl ⟨hnil, chained_iff_agrees.mp h⟩, iff_of_false nofun hnone,
        fun k row hb => absurd ⟨k, row, hb⟩ hnone⟩
  · obtain ⟨k, row, rest, prev, hbreak, hprev, hverify⟩ := exists_breaksAt h
    obtain ⟨b, hloop, hnames⟩ := verifyLoop_break hprev hbreak.2.2
      (hbreak.examinable htyped) rest
    have hne : activities ≠ [] := by
      rintro rfl
      exact h trivial
    refine ⟨_, hverify.trans hloop, iff_of_false nofun hne,
      iff_of_false nofun fun hv => h (chained_iff_agrees.mpr hv.2), iff_of_true rfl ⟨k, row, hbreak⟩,
      fun k' row' hbreak' => ?_⟩
    obtain ⟨rfl, rfl⟩ := hbreak.unique hbreak'
    exact ⟨rfl, b, rfl, hnames⟩

end FirstBreak

section Sample

attribute [local instance] asciiRuntime

/-- A record that is second in position and links to no record. -/
def strayRow : ActivityRow
  | .chainIndex => .integer 1
  | .prevHash => .text (List.replicate 64 (cp 'f'))
  | .costUnit => .text (py "NONE")
  | c => if c ∈ notNull then .text (List.replicate 64 (cp '0')) else .null

theorem strayRow_typed : strayRow.Typed := by
  have hall : ∀ c ∈ Column.all, c.admits (strayRow c) = true := by decide
  exact fun c => hall c c.mem_all

theorem note₀_agrees : Agrees [note₀, strayRow] 0 note₀ where
  position := by
    rw [show note₀ .chainIndex = .integer 0 from rfl]
    rfl
  link := rfl
  hash := ⟨noteHash₀, (computeEntryHash_chained _).trans computeEntryHash_note₀, rfl⟩

/-- The note is checked, and the stray record behind it is named; the order in the table does not matter. -/
theorem verifyChain_reports_stray : ∃ res b, verifyChain [strayRow, note₀] = .ok res ∧
    res.status = .BROKEN ∧ res.recordsChecked = 1 ∧ res.firstBreak = some b ∧
      b.kind = .LINK_MISMATCH := by
  have htyped : ∀ r ∈ [strayRow, note₀], r.Typed := by
    intro r hr
    rcases List.mem_cons.mp hr with rfl | hr
    · exact strayRow_typed
    · rw [List.mem_singleton.mp hr]
      exact notes_invariant.sound.typed note₀ List.mem_cons_self
  obtain ⟨res, hres, -, -, hbroken, hreport⟩ := verifyChain_reports htyped
  rw [show orderByChainIndex [strayRow, note₀] = [note₀, strayRow] from rfl] at hbroken hreport
  have hno : strayRow.read .prevHash ≠ expectedPrev [note₀, strayRow] 1 := by decide
  have hbreak : BreaksAt [note₀, strayRow] 1 strayRow := by
    refine ⟨rfl, fun i hi r hr => ?_, fun h => hno h.link⟩
    obtain rfl := Nat.lt_one_iff.mp hi
    cases hr
    exact note₀_agrees
  obtain ⟨hchecked, b, hb, hnames⟩ := hreport 1 strayRow hbreak
  refine ⟨res, b, hres, hbroken.mpr ⟨1, _, hbreak⟩, hchecked, hb, ?_⟩
  rw [hnames.kind, ← Except.ok.inj hnames.chainIndex, if_neg (by decide), if_pos hno]
  rfl

end Sample

end FlopOffice.Proof
