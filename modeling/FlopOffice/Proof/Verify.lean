/-
# FlopOffice.Proof.Verify — `verify_chain`, and what VALID means.

The verifier reads the table in chain order and stops at the first record that is out of position,
does not link to its predecessor, or does not carry its own hash. `ledgerView` reads a table row as a
link of a hash chain, and `verifyChain_valid_iff` says that the verifier answers VALID exactly on the
non-empty tables whose records, in chain order, are linked from the genesis value: everything that is
proved about verification goes through that equivalence.
-/
import FlopOffice.Lib.HashChain
import FlopOffice.Proof.HashChain

namespace FlopOffice.Proof

open FlopOffice.Lib FlopOffice.Python FlopOffice.Storage

/-! ## The verifier -/

inductive Status
  | VALID | EMPTY | BROKEN
  deriving DecidableEq, Repr

inductive BreakKind
  | HASH_MISMATCH | LINK_MISMATCH | INDEX_GAP | BAD_GENESIS
  deriving DecidableEq, Repr

/-- The first record that does not agree with the chain. -/
structure Break where
  chainIndex : Int
  activityId : Scalar
  kind : BreakKind
  expected : PyStr
  found : Scalar
  deriving DecidableEq

structure VerifyResult where
  status : Status
  recordsChecked : Nat
  headHash : Option Scalar := none
  firstBreak : Option Break := none
  deriving DecidableEq

/-- `VerifyResult(Status.VALID, checked, head_hash=head)`. -/
def VerifyResult.valid (checked : Nat) (head : Option Scalar) : VerifyResult :=
  { status := .VALID, recordsChecked := checked, headHash := head }

variable [PyRuntime]

/-- The loop of `verify_chain`; its `position` and its count of checked records are the same number.
`expectedPrev` is the text the next record has to link to. -/
def verifyLoop (expectedPrev : PyStr) (checked : Nat) : List ActivityRow → Except Exc VerifyResult
  | [] => .ok (.valid checked (some (.str expectedPrev)))
  | row :: rest => do
    let broken := fun index kind expected found => VerifyResult.mk .BROKEN checked none
      (some ⟨index, row.read .activityId, kind, expected, found⟩)
    let index ← (row .chainIndex).pyInt
    if index ≠ checked then
      let position ← strInt checked
      let found ← strInt index
      pure (broken index .INDEX_GAP position (.str found))
    else if row.read .prevHash ≠ .str expectedPrev then
      let kind := if checked = 0 then BreakKind.BAD_GENESIS else .LINK_MISMATCH
      pure (broken index kind expectedPrev (row.read .prevHash))
    else
      let recomputed ← computeEntryHash (chainedFields row.read)
      if .str recomputed ≠ row.read .entryHash then
        pure (broken index .HASH_MISMATCH recomputed (row.read .entryHash))
      else verifyLoop recomputed (checked + 1) rest

/-- Verify every record of `activities` in chain order. -/
def verifyChain (activities : List ActivityRow) : Except Exc VerifyResult :=
  match orderByChainIndex activities with
  | [] => .ok { status := .EMPTY, recordsChecked := 0 }
  | rows => verifyLoop GENESIS_PREV_HASH 0 rows

/-! ## Rows as links of a chain -/

/-- A table row as a link: positions and links are what the verifier reads, contents are the chained
fields, and a content that cannot be serialised has no hash. -/
def ledgerView : ChainView ActivityRow (Option Scalar) Row where
  index r := match (r .chainIndex).pyInt with
    | .ok i => i
    | .error _ => -1
  prev r := some (r.read .prevHash)
  entry r := some (r.read .entryHash)
  content r := chainedFields r.read
  hash row := match computeEntryHash row with
    | .ok h => some (.str h)
    | .error _ => none
  index_of_content r s h := by
    have hc : r.read .chainIndex = s.read .chainIndex := by
      simpa [chainedFields, mem_CHAINED_FIELDS] using congrFun h .chainIndex
    rw [SqlValue.toScalar_injective hc]
  prev_of_content r s h := by
    have hc : r.read .prevHash = s.read .prevHash := by
      simpa [chainedFields, mem_CHAINED_FIELDS] using congrFun h .prevHash
    rw [hc]

theorem ledgerView_hash_eq {row : Row} {h : PyStr} :
    ledgerView.hash row = some (.str h) ↔ computeEntryHash row = .ok h := by
  simp only [ledgerView]
  cases computeEntryHash row <;> simp

/-- The records in chain order, linked from the genesis value. -/
def Chained (activities : List ActivityRow) : Prop :=
  ledgerView.Linked (some (.str GENESIS_PREV_HASH)) 0 (orderByChainIndex activities)

/-- The hash of the last record in chain order. -/
def headHash (activities : List ActivityRow) : Option Scalar :=
  ledgerView.tip (some (.str GENESIS_PREV_HASH)) (orderByChainIndex activities)

/-- The verifier walks over a linked prefix to the record after it. -/
theorem verifyLoop_append {rows : List ActivityRow} {prev : PyStr} {n : Nat}
    (h : ledgerView.Linked (some (.str prev)) n rows) (rest : List ActivityRow) :
    ∃ last, ledgerView.tip (some (.str prev)) rows = some (.str last) ∧
      verifyLoop prev n (rows ++ rest) = verifyLoop last (n + rows.length) rest := by
  induction rows generalizing prev n with
  | nil => exact ⟨prev, rfl, rfl⟩
  | cons r rs ih =>
    obtain ⟨hidx, hprev, hhash, hrest⟩ := h
    have hi : (r .chainIndex).pyInt = .ok (n : Int) := by
      simp only [ledgerView] at hidx
      split at hidx
      · rename_i i heq
        rw [heq, hidx]
      · omega
    obtain ⟨e, he⟩ : ∃ e, computeEntryHash (chainedFields r.read) = .ok e := by
      simp only [ledgerView] at hhash
      cases hc : computeEntryHash (chainedFields r.read) with
      | ok e => exact ⟨e, rfl⟩
      | error x => rw [hc] at hhash; cases hhash
    have hentry : r.read .entryHash = .str e := by
      have hsome := ledgerView_hash_eq.mpr he
      exact (Option.some.inj (hsome.symm.trans hhash)).symm
    have hrest' : ledgerView.Linked (some (.str e)) (n + 1) rs := by
      rw [← hentry]
      exact hrest
    have htip : ledgerView.tip (some (.str prev)) (r :: rs) = ledgerView.tip (some (.str e)) rs := by
      rw [ChainView.tip_cons, ← hentry]
      rfl
    obtain ⟨last, hlast, hloop⟩ := ih hrest'
    have hlen : n + (r :: rs).length = n + 1 + rs.length := by
      rw [List.length_cons]
      omega
    refine ⟨last, htip.trans hlast, ?_⟩
    rw [hlen, ← hloop, List.cons_append, verifyLoop, hi]
    have hp : r.read .prevHash = .str prev := Option.some.inj hprev
    simp [bind, Except.bind, hp, he, hentry]

theorem verifyLoop_of_linked {rows : List ActivityRow} {prev : PyStr} {n : Nat}
    (h : ledgerView.Linked (some (.str prev)) n rows) :
    verifyLoop prev n rows =
      .ok (.valid (n + rows.length) (ledgerView.tip (some (.str prev)) rows)) := by
  obtain ⟨last, hlast, hloop⟩ := verifyLoop_append h []
  rw [List.append_nil] at hloop
  rw [hloop, hlast]
  rfl

theorem linked_of_verifyLoop {rows : List ActivityRow} {prev : PyStr} {n : Nat} {res : VerifyResult}
    (h : verifyLoop prev n rows = .ok res) (hv : res.status ≠ .BROKEN) :
    ledgerView.Linked (some (.str prev)) n rows := by
  induction rows generalizing prev n with
  | nil => trivial
  | cons r rs ih =>
    simp only [verifyLoop, bind_eq_ok] at h
    obtain ⟨i, hi, h⟩ := h
    split at h
    · -- out of position: whatever the texts of the two numbers, the result is BROKEN
      obtain ⟨_, -, h⟩ := bind_eq_ok.mp h
      obtain ⟨_, -, h⟩ := bind_eq_ok.mp h
      cases h
      exact absurd rfl hv
    · rename_i hidx
      split at h
      · cases h
        exact absurd rfl hv
      · rename_i hprev
        obtain ⟨e, he, h⟩ := bind_eq_ok.mp h
        split at h
        · cases h
          exact absurd rfl hv
        · rename_i hentry
          rw [ne_eq, not_not] at hidx hprev hentry
          have hentry' : ledgerView.entry r = some (.str e) := congrArg some hentry.symm
          refine ⟨?_, congrArg some hprev, ?_, ?_⟩
          · simp only [ledgerView, hi, hidx]
          · rw [hentry']
            exact ledgerView_hash_eq.mpr he
          · rw [hentry']
            exact ih h

/-- **VALID means linked**: the verifier answers VALID exactly on a non-empty linked table, and then
reports its length and the hash of its last record. -/
theorem verifyChain_valid_iff {activities : List ActivityRow} {res : VerifyResult} :
    (verifyChain activities = .ok res ∧ res.status = .VALID) ↔
      activities ≠ [] ∧ Chained activities ∧
        res = .valid activities.length (headHash activities) := by
  have hperm := orderByChainIndex_perm activities
  have hnil : orderByChainIndex activities = [] ↔ activities = [] := by
    rw [← List.length_eq_zero_iff, hperm.length_eq, List.length_eq_zero_iff]
  unfold verifyChain Chained headHash
  split
  · rename_i ho
    constructor
    · rintro ⟨h, hv⟩
      cases h
      cases hv
    · rintro ⟨hne, -, -⟩
      exact absurd (hnil.mp ho) hne
  · rename_i rows hrows
    have hne : activities ≠ [] := fun h => hrows (hnil.mpr h)
    rw [← hperm.length_eq]
    constructor
    · rintro ⟨h, hv⟩
      have hl := linked_of_verifyLoop h (by rw [hv]; decide)
      rw [verifyLoop_of_linked hl] at h
      cases h
      exact ⟨hne, hl, by simp⟩
    · rintro ⟨-, hl, rfl⟩
      exact ⟨by rw [verifyLoop_of_linked hl]; simp, rfl⟩

theorem verifyChain_empty : verifyChain [] = .ok { status := .EMPTY, recordsChecked := 0 } := rfl

/-- A linked table verifies, and the answer is never an exception. -/
theorem verifyChain_of_chained {activities : List ActivityRow} (h : Chained activities)
    (hne : activities ≠ []) :
    verifyChain activities = .ok (.valid activities.length (headHash activities)) :=
  (verifyChain_valid_iff.mpr ⟨hne, h, rfl⟩).1

/-- On rows of declared types the verifier always answers. -/
theorem verifyLoop_total {rows : List ActivityRow} (h : ∀ r ∈ rows, r.Typed) (prev : PyStr) {n : Nat}
    (hn : n + rows.length ≤ 2 ^ 63) :
    ∃ res, verifyLoop prev n rows = .ok res ∧ res.status ≠ .EMPTY := by
  induction rows generalizing prev n with
  | nil => exact ⟨_, rfl, fun h => by cases h⟩
  | cons r rs ih =>
    obtain ⟨hidx, hstore⟩ := (h r List.mem_cons_self).chainIndex
    obtain ⟨data, -, hhash⟩ := computeEntryHash_of_typed (h r List.mem_cons_self)
    rw [List.length_cons] at hn
    have hpos : storable (n : Int) = true := by
      rw [storable_iff]
      omega
    obtain ⟨tn, htn⟩ := strInt_of_storable hpos
    obtain ⟨ti, hti⟩ := strInt_of_storable hstore
    obtain ⟨res, hres, hne⟩ := ih (fun s hs => h s (List.mem_cons_of_mem _ hs)) (hexdigest data)
      (n := n + 1) (by omega)
    rw [verifyLoop, hidx]
    simp only [SqlValue.pyInt, htn, hti, computeEntryHash_chained, hhash, bind, Except.bind, pure,
      Except.pure]
    by_cases hi : r.index = n
    · by_cases hp : r.read .prevHash = .str prev
      · by_cases he : .str (hexdigest data) = r.read .entryHash
        · exact ⟨res, by simp [hi, hp, he, hres], hne⟩
        · simp [hi, hp, he]
      · simp [hi, hp]
    · simp [hi]

/-- **BROKEN means not linked**, on a non-empty table of declared types. -/
theorem verifyChain_broken_iff {rows : List ActivityRow} (h : ∀ r ∈ rows, r.Typed) (hne : rows ≠ [])
    (hlen : rows.length ≤ 2 ^ 63) :
    ∃ res, verifyChain rows = .ok res ∧ (res.status = .BROKEN ↔ ¬ Chained rows) := by
  have hperm := orderByChainIndex_perm rows
  have hcons : orderByChainIndex rows ≠ [] := fun h0 => hne (by
    rw [h0] at hperm
    exact hperm.symm.eq_nil)
  obtain ⟨res, hres, hnempty⟩ := verifyLoop_total (n := 0)
    (fun r hr => h r (hperm.mem_iff.mp hr)) GENESIS_PREV_HASH (by rw [hperm.length_eq]; omega)
  have hchain : verifyChain rows = .ok res := by
    unfold verifyChain
    split
    · exact absurd (by assumption) hcons
    · exact hres
  refine ⟨res, hchain, fun hb hl => ?_, fun hl => ?_⟩
  · rw [verifyChain_of_chained hl hne] at hchain
    cases hchain
    cases hb
  · by_contra hb
    cases hs : res.status with
    | VALID => exact hl (verifyChain_valid_iff.mp ⟨hchain, hs⟩).2.1
    | EMPTY => exact hnempty hs
    | BROKEN => exact hb hs

/-! ## Sound tables -/

/-- A table of declared types whose records are linked in chain order: what an untampered ledger is. -/
structure SoundTable (rows : List ActivityRow) : Prop where
  typed : ∀ r ∈ rows, r.Typed
  chained : Chained rows

theorem ledgerView_index {r : ActivityRow} (h : r .chainIndex = .integer r.index) :
    ledgerView.index r = r.index := by
  simp only [ledgerView, h, SqlValue.pyInt]

namespace SoundTable

variable {rows : List ActivityRow}

theorem of_verify {res : VerifyResult} (htyped : ∀ r ∈ rows, r.Typed)
    (h : verifyChain rows = .ok res) (hv : res.status ≠ .BROKEN) : SoundTable rows := by
  refine ⟨htyped, ?_⟩
  by_cases hne : rows = []
  · subst hne
    trivial
  · cases hs : res.status with
    | VALID => exact (verifyChain_valid_iff.mp ⟨h, hs⟩).2.1
    | BROKEN => exact absurd hs hv
    | EMPTY =>
      unfold verifyChain at h
      split at h
      · rename_i ho
        have hperm := orderByChainIndex_perm rows
        rw [ho] at hperm
        exact absurd hperm.symm.eq_nil hne
      · exact linked_of_verifyLoop h hv

/-- The verifier accepts a sound table. -/
theorem verify (h : SoundTable rows) :
    verifyChain rows = .ok (if rows = [] then { status := .EMPTY, recordsChecked := 0 }
      else .valid rows.length (headHash rows)) := by
  split
  · rename_i hnil
    rw [hnil, verifyChain_empty]
  · rename_i hne
    exact verifyChain_of_chained h.chained hne

theorem ordered_typed (h : SoundTable rows) : ∀ r ∈ orderByChainIndex rows, r.Typed :=
  fun r hr => h.typed r ((orderByChainIndex_perm rows).mem_iff.mp hr)

/-- In a sound table the records are numbered by their places in chain order. -/
theorem numbered (h : SoundTable rows) (i : Nat) (hi : i < (orderByChainIndex rows).length) :
    ((orderByChainIndex rows)[i]).index = i := by
  have hidx := ChainView.Linked.index_getElem _ h.chained i hi
  rw [ledgerView_index (h.ordered_typed _ (List.getElem_mem hi)).chainIndex.1] at hidx
  simpa using hidx

theorem length_le (h : SoundTable rows) : rows.length ≤ 2 ^ 63 := by
  have hlen := (orderByChainIndex_perm rows).length_eq
  rcases Nat.eq_zero_or_pos rows.length with h0 | hpos
  · omega
  · have hi : rows.length - 1 < (orderByChainIndex rows).length := by omega
    have hs := (h.ordered_typed _ (List.getElem_mem hi)).chainIndex.2
    rw [h.numbered _ hi, storable_iff] at hs
    omega

/-- Every record of a sound table carries its own hash. -/
theorem hash_eq (h : SoundTable rows) {r : ActivityRow} (hr : r ∈ rows) :
    ∃ b, canonicalBytes r.read = .ok b ∧ computeEntryHash r.read = .ok (hexdigest b) ∧
      r .entryHash = .text (hexdigest b) := by
  have hd := ChainView.Linked.digest _ h.chained ((orderByChainIndex_perm rows).mem_iff.mpr hr)
  obtain ⟨b, hb, he⟩ := computeEntryHash_of_typed (h.typed r hr)
  refine ⟨b, hb, he, SqlValue.toScalar_injective ?_⟩
  have hh : ledgerView.hash (chainedFields r.read) = some (.str (hexdigest b)) :=
    ledgerView_hash_eq.mpr (by rw [computeEntryHash_chained, he])
  exact (Option.some.inj (hh.symm.trans hd)).symm

end SoundTable

end FlopOffice.Proof
