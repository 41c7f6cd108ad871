/-
# FlopOffice.Proof.Positions — the place of the next record.

The next record is numbered by `int()` of the last position plus one, and sorted by the position itself. A
column takes values of any type, and the verifier is content with a text that `int()` reads: so the two
orders need not agree. They do where every position is stored as a number (`Numbered`), and then an append
to a linked table of whatever values is one more link (`Chained.concat`). A text or a blob sorts behind
every number: the next record, which is stored as an integer, comes before it, and the table is not linked
any more (`not_chained_of_outranked`).
-/
import FlopOffice.Proof.Ledger
import FlopOffice.Proof.Verify
import Mathlib.Algebra.Order.Field.Rat
import Mathlib.Tactic.Positivity

namespace FlopOffice.Proof

open FlopOffice.Lib FlopOffice.Python FlopOffice.Storage

/-! ## The order of the values -/

theorem rank_le_of_le {a b : SqlValue} (h : SqlValue.le a b = true) : a.rank ≤ b.rank := by
  simp only [SqlValue.le, Bool.or_eq_true, Bool.and_eq_true, decide_eq_true_eq, beq_iff_eq] at h
  omega

theorem rank_le_of_not_le {a b : SqlValue} (h : ¬ SqlValue.le a b = true) : b.rank ≤ a.rank := by
  simp only [SqlValue.le, Bool.or_eq_true, Bool.and_eq_true, decide_eq_true_eq, beq_iff_eq] at h
  omega

theorem orderedInsert_concat {α : Type} {r : α → α → Prop} [DecidableRel r] {a b : α} (h : r a b)
    (l : List α) : (l ++ [b]).orderedInsert r a = l.orderedInsert r a ++ [b] := by
  induction l with
  | nil => simp [h]
  | cons c l ih =>
    rw [List.cons_append, List.orderedInsert, List.orderedInsert]
    split
    · rfl
    · rw [ih, List.cons_append]

/-- What every record may stand before comes last. -/
theorem orderByChainIndex_concat {rows : List ActivityRow} {r : ActivityRow}
    (h : ∀ s ∈ rows, SqlValue.le (s .chainIndex) (r .chainIndex) = true) :
    orderByChainIndex (rows ++ [r]) = orderByChainIndex rows ++ [r] := by
  induction rows with
  | nil => rfl
  | cons s rows ih =>
    obtain ⟨hs, hrows⟩ := List.forall_mem_cons.mp h
    have hstep := ih hrows
    unfold orderByChainIndex at hstep ⊢
    rw [List.cons_append, List.insertionSort_cons, List.insertionSort_cons, hstep]
    exact orderedInsert_concat (r := fun r s : ActivityRow =>
      SqlValue.le (r .chainIndex) (s .chainIndex) = true) hs _

/-- Numbers come before texts, and texts before blobs. -/
theorem orderByChainIndex_rank (rows : List ActivityRow) :
    (orderByChainIndex rows).Pairwise fun r s => (r .chainIndex).rank ≤ (s .chainIndex).rank := by
  have hinsert : ∀ (r : ActivityRow) (l : List ActivityRow),
      l.Pairwise (fun r s => (r .chainIndex).rank ≤ (s .chainIndex).rank) →
      (l.orderedInsert (fun r s => SqlValue.le (r .chainIndex) (s .chainIndex) = true) r).Pairwise
        fun r s => (r .chainIndex).rank ≤ (s .chainIndex).rank := by
    intro r l hl
    induction l with
    | nil => exact List.pairwise_singleton _ _
    | cons s l ih =>
      obtain ⟨hs, hrest⟩ := List.pairwise_cons.mp hl
      rw [List.orderedInsert]
      split
      · rename_i hle
        have hrank := rank_le_of_le hle
        refine List.pairwise_cons.mpr ⟨fun t ht => ?_, hl⟩
        rcases List.mem_cons.mp ht with rfl | ht
        · exact hrank
        · exact hrank.trans (hs t ht)
      · rename_i hle
        refine List.pairwise_cons.mpr ⟨fun t ht => ?_, ih hrest⟩
        rcases (List.mem_orderedInsert _).mp ht with rfl | ht
        · exact rank_le_of_not_le hle
        · exact hs t ht
  induction rows with
  | nil => exact List.Pairwise.nil
  | cons r rows ih => exact hinsert r _ ih

variable [PyRuntime]

/-- A number that `int()` cuts to less than a count is not above it. -/
theorem le_of_pyInt_lt {v : SqlValue} {i : Int} {n : Nat} (hv : v.rank = 1) (hi : v.pyInt = .ok i)
    (hlt : i < n) : SqlValue.le v (.integer n) = true := by
  cases v with
  | null | text | blob => cases hv
  | integer j =>
    cases hi
    rw [SqlValue.le_integer]
    exact decide_eq_true hlt.le
  | real f =>
    cases f with
    | nan | inf => cases hi
    | finite neg mant exp =>
      have hpow : (0 : Rat) < 2 ^ exp.natAbs := by positivity
      have hcut := Except.ok.inj hi
      have hvalue : (if exp < 0 then mkRat (if neg then -mant else mant) (2 ^ exp.natAbs) else
          ((if neg then -mant else mant : Int) : Rat) * 2 ^ exp.natAbs) ≤ n := by
        cases neg with
        | true =>
          have hneg : (((-mant : Int)) : Rat) ≤ 0 := by simp
          have hn : (0 : Rat) ≤ n := Nat.cast_nonneg n
          rw [if_pos rfl]
          split
          · rw [Rat.mkRat_eq_div]
            exact (div_nonpos_of_nonpos_of_nonneg hneg (by positivity)).trans hn
          · exact (mul_nonpos_of_nonpos_of_nonneg hneg hpow.le).trans hn
        | false =>
          rw [if_neg Bool.false_ne_true] at hcut ⊢
          subst hcut
          split at hlt
          · rw [if_pos (by assumption), Rat.mkRat_eq_div, Nat.cast_pow, Nat.cast_ofNat, div_le_iff₀ hpow]
            have hlt' : mant < n * 2 ^ exp.natAbs := by
              rw [← Nat.div_lt_iff_lt_mul (by positivity)]
              exact_mod_cast hlt
            exact_mod_cast hlt'.le
          · rw [if_neg (by assumption)]
            exact_mod_cast hlt.le
      simp only [SqlValue.le, SqlValue.rank, SqlValue.toScalar, keyLe, numKey, lt_self_iff_false,
        decide_false, beq_self_eq_true, Bool.true_and, Bool.false_or, decide_eq_true_eq]
      exact_mod_cast hvalue

/-! ## Linked tables -/

omit [PyRuntime] in
/-- Every position is stored as a number. -/
def Numbered (rows : List ActivityRow) : Prop := ∀ r ∈ rows, (r .chainIndex).rank = 1

section Linked

variable {rows : List ActivityRow} {r t : ActivityRow}

theorem pyInt_of_index {i : Nat} (h : ledgerView.index r = i) : (r .chainIndex).pyInt = .ok (i : Int) := by
  simp only [ledgerView] at h
  split at h
  · rename_i j hj
    rw [hj, h]
  · omega

/-- In a linked table a record stands where its position says. -/
theorem Chained.exists_place (h : Chained rows) (hr : r ∈ rows) :
    ∃ i, ∃ hi : i < (orderByChainIndex rows).length, (orderByChainIndex rows)[i] = r ∧
      ledgerView.index r = i := by
  obtain ⟨i, hi, rfl⟩ := List.getElem_of_mem ((orderByChainIndex_perm rows).mem_iff.mpr hr)
  refine ⟨i, hi, rfl, ?_⟩
  simpa using ChainView.Linked.index_getElem _ h i hi

/-- The positions of a linked table are less than its length. -/
theorem Chained.pyInt_lt (h : Chained rows) (hr : r ∈ rows) :
    ∃ i < rows.length, (r .chainIndex).pyInt = .ok (i : Int) := by
  obtain ⟨i, hi, -, hindex⟩ := h.exists_place hr
  exact ⟨i, (orderByChainIndex_perm rows).length_eq ▸ hi, pyInt_of_index hindex⟩

/-- The chain order of a linked table with one more record. -/
theorem Chained.order_concat (h : Chained rows) (hnumbered : Numbered rows)
    (hr : r .chainIndex = .integer rows.length) :
    orderByChainIndex (rows ++ [r]) = orderByChainIndex rows ++ [r] := by
  refine orderByChainIndex_concat fun s hs => ?_
  obtain ⟨i, hi, hpyInt⟩ := h.pyInt_lt hs
  rw [hr]
  exact le_of_pyInt_lt (hnumbered s hs) hpyInt (by exact_mod_cast hi)

/-- The next record of a linked table: its position, and the hash it links to. -/
theorem Chained.nextLink {db : Database} (h : Chained db.activities) :
    ∃ prev, nextLink (selectHead db) = .ok (db.activities.length, .str prev) ∧
      headHash db.activities = some (.str prev) := by
  obtain ⟨last, htip, -⟩ := verifyLoop_append h []
  refine ⟨last, ?_, htip⟩
  have hlen := (orderByChainIndex_perm db.activities).length_eq
  rcases List.eq_nil_or_concat' (orderByChainIndex db.activities) with hnil | ⟨init, head, horder⟩
  · rw [hnil, List.length_nil] at hlen
    rw [hnil] at htip
    cases htip
    rw [selectHead, hnil, ← hlen]
    rfl
  · have hplace := ChainView.Linked.index_getElem _ h init.length (by rw [horder]; simp)
    simp only [horder, List.getElem_concat_length, Nat.zero_add] at hplace
    rw [horder, ChainView.tip_concat] at htip
    rw [horder, List.length_append, List.length_singleton] at hlen
    rw [selectHead, horder, List.getLast?_concat, Proof.nextLink, pyInt_of_index hplace, ← hlen,
      show head.read .entryHash = .str last from Option.some.inj htip]
    rfl

/-- **One more link**: a row that stands after the last one, links to it, and carries its own hash. -/
theorem Chained.concat (h : Chained rows) (hnumbered : Numbered rows) {hash : PyStr}
    (hnum : r .chainIndex = .integer rows.length) (hprev : headHash rows = some (r.read .prevHash))
    (hown : computeEntryHash r.read = .ok hash) (hentry : r.read .entryHash = .str hash) :
    Chained (rows ++ [r]) ∧ headHash (rows ++ [r]) = some (.str hash) := by
  have horder := h.order_concat hnumbered hnum
  refine ⟨?_, ?_⟩
  · rw [Chained, horder]
    refine (ChainView.linked_concat _).mpr ⟨h, ?_, ?_, ?_⟩
    · rw [(orderByChainIndex_perm _).length_eq]
      simp only [ledgerView, hnum, SqlValue.pyInt, Nat.zero_add]
    · rw [← headHash, hprev]
      rfl
    · refine (ledgerView_hash_eq.mpr ((computeEntryHash_chained _).trans hown)).trans ?_
      exact congrArg some hentry.symm
  · rw [headHash, horder, ChainView.tip_concat]
    exact congrArg some hentry

/-- A record that sorts behind one with a greater position. -/
def Outranked (rows : List ActivityRow) : Prop :=
  ∃ t ∈ rows, ∃ r ∈ rows, ledgerView.index t < ledgerView.index r ∧
    (r .chainIndex).rank < (t .chainIndex).rank

theorem Outranked.mono {rows' : List ActivityRow} (h : Outranked rows) (hsub : rows ⊆ rows') :
    Outranked rows' := by
  obtain ⟨t, ht, r, hr, hindex, hrank⟩ := h
  exact ⟨t, hsub ht, r, hsub hr, hindex, hrank⟩

/-- **The two orders do not agree.** -/
theorem not_chained_of_outranked (h : Outranked rows) : ¬ Chained rows := by
  obtain ⟨t, ht, r, hr, hindex, hrank⟩ := h
  intro hchained
  obtain ⟨i, hi, rfl, hti⟩ := hchained.exists_place ht
  obtain ⟨j, hj, rfl, hrj⟩ := hchained.exists_place hr
  have hsorted := List.pairwise_iff_getElem.mp (orderByChainIndex_rank rows) i j hi hj (by omega)
  omega

/-- **The next record after a text or a blob.** It is stored as an integer, and sorts before it. -/
theorem Chained.outranked (h : Chained rows) (hnumbered : ¬ Numbered rows)
    (hr : r .chainIndex = .integer rows.length) : Outranked (rows ++ [r]) := by
  obtain ⟨t, ht, hrank⟩ : ∃ t ∈ rows, (t .chainIndex).rank ≠ 1 := by
    simpa only [Numbered, not_forall, exists_prop] using hnumbered
  obtain ⟨i, hi, hpyInt⟩ := h.pyInt_lt ht
  have hindex : ledgerView.index t = i := by
    simp only [ledgerView, hpyInt]
  have hnext : ledgerView.index r = rows.length := by
    simp only [ledgerView, hr, SqlValue.pyInt]
  refine ⟨t, List.mem_append_left _ ht, r, List.mem_append_right _ List.mem_cons_self, by omega, ?_⟩
  -- a linked table has no NULL for a position
  rw [hr]
  cases hv : t .chainIndex with
  | null =>
    rw [hv] at hpyInt
    cases hpyInt
  | integer | real =>
    rw [hv] at hrank
    exact absurd rfl hrank
  | text => exact (by decide : 1 < 2)
  | blob => exact (by decide : 1 < 3)

end Linked

end FlopOffice.Proof
