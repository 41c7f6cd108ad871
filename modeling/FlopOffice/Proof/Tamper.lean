/-
# FlopOffice.Proof.Tamper — what the hash chain detects, and what it does not.

Two results about `verify_chain`, both under the assumption that SHA-256 does not collide on the rows
at hand (`CollisionFree`, a statement about those rows only).

* **A remembered head commits to the table** (`headHash_commits`): two tables that verify with the
  same head hash are the same table in chain order, column by column.
* **Single-record tampering** (`edit_detected`, `delete_detected_iff`, `rehash_detected_iff`): an edit
  that leaves `entry_hash` alone is always detected. A deletion is detected exactly when the record is
  not the last one: nothing anchors the end of the chain. An edit with a recomputed `entry_hash` is
  detected when the record is not the last one, and on the last record exactly when the edited column
  is one the verifier compares with its neighbours.
-/
import FlopOffice.Proof.LedgerRuns

namespace FlopOffice.Proof

open FlopOffice.Lib FlopOffice.Python FlopOffice.Storage

/-! ## Collisions -/

section Commitment

variable [PyRuntime]

/-- SHA-256 does not collide on the serialisations of these rows. -/
def CollisionFree (rows : List ActivityRow) : Prop :=
  ∀ r ∈ rows, ∀ s ∈ rows, ∀ b ∈ (canonicalBytes r.read).toOption,
    ∀ b' ∈ (canonicalBytes s.read).toOption, sha256 b = sha256 b' → b = b'

instance (rows : List ActivityRow) : Decidable (CollisionFree rows) := by
  unfold CollisionFree
  infer_instance

theorem computeEntryHash_eq_ok {row : Row} {h : PyStr} :
    computeEntryHash row = .ok h ↔ ∃ b, canonicalBytes row = .ok b ∧ hexdigest b = h := by
  simp [computeEntryHash, bind_eq_ok, pure, Except.pure]

/-- Without collisions, rows of NULL, integers and text with one hash agree on every chained field. -/
theorem chained_eq_of_hash_eq {rows : List ActivityRow} (hcoll : CollisionFree rows)
    {r s : ActivityRow} (hr : r ∈ rows) (hs : s ∈ rows)
    (hpr : ∀ c ∈ CHAINED_FIELDS, Plain (r.read c)) (hps : ∀ c ∈ CHAINED_FIELDS, Plain (s.read c))
    {h : PyStr} (hhr : computeEntryHash r.read = .ok h) (hhs : computeEntryHash s.read = .ok h) :
    ∀ c ∈ CHAINED_FIELDS, r c = s c := by
  obtain ⟨b, hb, hbh⟩ := computeEntryHash_eq_ok.mp hhr
  obtain ⟨b', hb', hbh'⟩ := computeEntryHash_eq_ok.mp hhs
  have hbb : b = b' := hcoll r hr s hs b (by rw [hb]; rfl) b' (by rw [hb']; rfl)
    (sha256_eq_of_hexdigest_eq (hbh.trans hbh'.symm))
  subst hbb
  exact fun c hc => SqlValue.toScalar_injective (canonicalBytes_injective hpr hps hb hb' c hc)

/-- Rows whose hashes are known do not collide if different rows have different hashes. -/
theorem collisionFree_of_hashes (hashed : List (ActivityRow × PyStr))
    (h : ∀ p ∈ hashed, computeEntryHash p.1.read = .ok p.2)
    (hne : ∀ p ∈ hashed, ∀ q ∈ hashed, p.2 = q.2 → p.1 = q.1) :
    CollisionFree (hashed.map Prod.fst) := by
  intro r hr s hs b hb b' hb' heq
  obtain ⟨p, hp, rfl⟩ := List.mem_map.mp hr
  obtain ⟨q, hq, rfl⟩ := List.mem_map.mp hs
  obtain ⟨bp, hbp, hph⟩ := computeEntryHash_eq_ok.mp (h p hp)
  obtain ⟨bq, hbq, hqh⟩ := computeEntryHash_eq_ok.mp (h q hq)
  rw [hbp] at hb
  rw [hbq] at hb'
  cases hb
  cases hb'
  have hrow := hne p hp q hq (by rw [← hph, ← hqh, hexdigest, heq, ← hexdigest])
  rw [hrow, hbq] at hbp
  exact (Except.ok.inj hbp).symm

/-! ## A remembered head -/

/-- **The head hash commits to the table.** -/
theorem headHash_commits {rows rows' : List ActivityRow} {res res' : VerifyResult}
    (hplain : ∀ r ∈ rows ++ rows', ∀ c ∈ CHAINED_FIELDS, Plain (r.read c))
    (hcoll : CollisionFree (rows ++ rows'))
    (h : verifyChain rows = .ok res) (h' : verifyChain rows' = .ok res')
    (hv : res.status = .VALID) (hv' : res'.status = .VALID) (hhead : res.headHash = res'.headHash) :
    rows.length = rows'.length ∧ orderByChainIndex rows = orderByChainIndex rows' := by
  obtain ⟨hne, hl, rfl⟩ := verifyChain_valid_iff.mp ⟨h, hv⟩
  obtain ⟨hne', hl', rfl⟩ := verifyChain_valid_iff.mp ⟨h', hv'⟩
  have hp := orderByChainIndex_perm rows
  have hp' := orderByChainIndex_perm rows'
  have hcons : ∀ {l : List ActivityRow}, l ≠ [] → orderByChainIndex l ≠ [] := by
    intro l hl h0
    have := orderByChainIndex_perm l
    rw [h0] at this
    exact hl this.symm.eq_nil
  -- without collisions the chain's hash is injective on the contents of the two tables
  have hinj : Set.InjOn ledgerView.hash {k | ∃ r, (r ∈ orderByChainIndex rows ∨
      r ∈ orderByChainIndex rows') ∧ ledgerView.content r = k} := by
    rintro _ ⟨r, hr, rfl⟩ _ ⟨s, hs, rfl⟩ heq
    have hmem : ∀ x, (x ∈ orderByChainIndex rows ∨ x ∈ orderByChainIndex rows') →
        x ∈ rows ++ rows' := fun x hx =>
      List.mem_append.mpr (hx.imp hp.mem_iff.mp hp'.mem_iff.mp)
    have hdig : ledgerView.hash (ledgerView.content r) = ledgerView.entry r :=
      hr.elim (fun hr => ChainView.Linked.digest _ hl hr) fun hr => ChainView.Linked.digest _ hl' hr
    obtain ⟨e, he⟩ : ∃ e, computeEntryHash (chainedFields r.read) = .ok e := by
      simp only [ledgerView] at hdig
      cases hc : computeEntryHash (chainedFields r.read) with
      | ok e => exact ⟨e, rfl⟩
      | error x => rw [hc] at hdig; cases hdig
    have hes : computeEntryHash (chainedFields s.read) = .ok e :=
      ledgerView_hash_eq.mp (heq.symm.trans (ledgerView_hash_eq.mpr he))
    rw [computeEntryHash_chained] at he hes
    have hall := chained_eq_of_hash_eq hcoll (hmem r hr) (hmem s hs) (hplain r (hmem r hr))
      (hplain s (hmem s hs)) he hes
    funext c
    simp only [ledgerView, chainedFields]
    split
    · rename_i hc
      exact congrArg SqlValue.toScalar (hall c hc)
    · rfl
  have hcontents := ChainView.Linked.contents_eq _ hl hl' (hcons hne) (hcons hne') hhead hinj
  have hentries := ChainView.Linked.entries_eq _ hl hl' hcontents
  have hlen : (orderByChainIndex rows).length = (orderByChainIndex rows').length := by
    simpa using congrArg List.length hcontents
  refine ⟨by rw [← hp.length_eq, hlen, hp'.length_eq], ?_⟩
  refine List.ext_getElem hlen fun j hj hj' => ?_
  have hc : chainedFields ((orderByChainIndex rows)[j]).read =
      chainedFields ((orderByChainIndex rows')[j]).read := by
    have := List.getElem_of_eq hcontents (by simpa using hj)
    rw [List.getElem_map, List.getElem_map] at this
    exact this
  have he : ledgerView.entry ((orderByChainIndex rows)[j]) =
      ledgerView.entry ((orderByChainIndex rows')[j]) := by
    have := List.getElem_of_eq hentries (by simpa using hj)
    rwa [List.getElem_map, List.getElem_map] at this
  funext c
  apply SqlValue.toScalar_injective
  by_cases hcc : c ∈ CHAINED_FIELDS
  · have := congrFun hc c
    rwa [chainedFields, chainedFields, if_pos hcc, if_pos hcc] at this
  · rw [mem_CHAINED_FIELDS, not_not] at hcc
    subst hcc
    exact Option.some.inj he

end Commitment

section Notes

attribute [local instance] asciiRuntime

/-- The order in which the table holds its rows does not matter to the head. -/
theorem headHash_commits_notes : notes.length = notes.reverse.length ∧
    orderByChainIndex notes = orderByChainIndex notes.reverse := by
  have hmem : ∀ r ∈ notes ++ notes.reverse, r ∈ notes := by simp
  have horder : orderByChainIndex notes.reverse = notes :=
    orderByChainIndex_of_numbered (List.reverse_perm notes)
      (fun r hr => (notes_invariant.sound.typed r (List.mem_reverse.mp hr)).chainIndex.1)
      fun i hi => ActivityRow.index_eq (notes_invariant.numbered i hi)
  have hreverse : verifyChain notes.reverse = verifyChain notes := by
    rw [verifyChain, verifyChain, horder, notes_invariant.order_eq]
  refine headHash_commits (fun r hr c _ => plain_of_admits (notes_invariant.sound.typed r
    (hmem r hr) c)) ?_ verifyChain_notes (hreverse.trans verifyChain_notes) rfl rfl rfl
  exact collisionFree_of_hashes
    [(note₀, noteHash₀), (note₁, noteHash₁), (note₁, noteHash₁), (note₀, noteHash₀)]
    (by simp [computeEntryHash_note₀, computeEntryHash_note₁])
    (by simp [show noteHash₀ ≠ noteHash₁ by decide, show noteHash₁ ≠ noteHash₀ by decide])

end Notes

/-! ## Tampering with one record -/

section Tampering

variable [PyRuntime]

/-- Recompute a record's hash. -/
def rehash (r : ActivityRow) : ActivityRow :=
  Function.update r .entryHash (match computeEntryHash r.read with
    | .ok h => .text h
    | .error _ => .null)

omit [PyRuntime] in
/-- Change the record at `chain_index = k` by `f`. -/
def alterRecord (rows : List ActivityRow) (k : Int) (f : ActivityRow → ActivityRow) :
    List ActivityRow :=
  rows.map fun r => if r .chainIndex = .integer k then f r else r

omit [PyRuntime] in
/-- `UPDATE activities SET c = v WHERE chain_index = k`. -/
def editField (rows : List ActivityRow) (k : Int) (c : Column) (v : SqlValue) : List ActivityRow :=
  alterRecord rows k fun r => Function.update r c v

/-- The same edit, with the record's `entry_hash` recomputed. -/
def editAndRehash (rows : List ActivityRow) (k : Int) (c : Column) (v : SqlValue) :
    List ActivityRow :=
  alterRecord rows k fun r => rehash (Function.update r c v)

omit [PyRuntime] in
/-- `DELETE FROM activities WHERE chain_index = k`. -/
def deleteRecord (rows : List ActivityRow) (k : Int) : List ActivityRow :=
  rows.filter fun r => r .chainIndex ≠ .integer k

namespace SoundTable

variable {rows : List ActivityRow}

/-- Where a record stands in chain order, and that its number is its own. -/
theorem split (h : SoundTable rows) {r : ActivityRow} (hr : r ∈ rows) :
    ∃ l l', orderByChainIndex rows = l ++ r :: l' ∧ (l.length : Int) = r.index ∧
      ∀ s, s ∈ l ∨ s ∈ l' → s .chainIndex ≠ .integer r.index := by
  obtain ⟨i, hi, hri⟩ := List.getElem_of_mem ((orderByChainIndex_perm rows).mem_iff.mpr hr)
  have hnum := h.numbered i hi
  rw [hri] at hnum
  have hsplit : orderByChainIndex rows =
      (orderByChainIndex rows).take i ++ r :: (orderByChainIndex rows).drop (i + 1) := by
    rw [← hri, List.getElem_cons_drop, List.take_append_drop]
  refine ⟨_, _, hsplit, by rw [List.length_take, hnum]; omega, ?_⟩
  intro s hs heq
  obtain ⟨j, hj, hsj⟩ : ∃ j, j ≠ i ∧ (orderByChainIndex rows)[j]? = some s := by
    rcases hs with hs | hs
    · obtain ⟨j, hj, rfl⟩ := List.getElem_of_mem hs
      rw [List.length_take] at hj
      exact ⟨j, by omega, by rw [List.getElem_take, List.getElem?_eq_getElem]⟩
    · obtain ⟨j, hj, rfl⟩ := List.getElem_of_mem hs
      rw [List.length_drop] at hj
      exact ⟨i + 1 + j, by omega, by rw [List.getElem_drop, List.getElem?_eq_getElem]⟩
  obtain ⟨hjl, hsj⟩ := List.getElem?_eq_some_iff.mp hsj
  have hnumj := h.numbered j hjl
  rw [hsj, ActivityRow.index_eq heq, hnum] at hnumj
  omega

/-- A change of one record that keeps its number changes that record in chain order. -/
theorem order_alter (h : SoundTable rows) {r : ActivityRow} (hr : r ∈ rows) {l l' : List ActivityRow}
    (hsplit : orderByChainIndex rows = l ++ r :: l')
    (hother : ∀ s, s ∈ l ∨ s ∈ l' → s .chainIndex ≠ .integer r.index)
    {f : ActivityRow → ActivityRow} (hf : f r .chainIndex = r .chainIndex) :
    orderByChainIndex (alterRecord rows r.index f) = l ++ f r :: l' := by
  have hrow := (h.typed r hr).chainIndex.1
  have hkeep : ∀ l : List ActivityRow, (∀ s ∈ l, s .chainIndex ≠ .integer r.index) →
      l.map (fun s => if s .chainIndex = .integer r.index then f s else s) = l := by
    intro l hl
    exact (List.map_congr_left fun s hs => if_neg (hl s hs)).trans (List.map_id' l)
  have hmap : (orderByChainIndex rows).map
      (fun s => if s .chainIndex = .integer r.index then f s else s) = l ++ f r :: l' := by
    rw [hsplit, List.map_append, List.map_cons, if_pos hrow,
      hkeep l fun s hs => hother s (Or.inl hs), hkeep l' fun s hs => hother s (Or.inr hs)]
  have hindex : ∀ s ∈ rows, ∀ g, g = (if s .chainIndex = .integer r.index then f s else s) →
      g .chainIndex = s .chainIndex := by
    rintro s hs g rfl
    split
    · rename_i hk
      obtain ⟨l₁, l₂, hsp, -, hoth⟩ := h.split hr
      have hsr : s = r := by
        have hmem := (orderByChainIndex_perm rows).mem_iff.mpr hs
        rw [hsp] at hmem
        rcases List.mem_append.mp hmem with hm | hm
        · exact absurd hk (hoth s (Or.inl hm))
        · rcases List.mem_cons.mp hm with hm | hm
          · exact hm
          · exact absurd hk (hoth s (Or.inr hm))
      rw [hsr, hf]
    · rfl
  rw [← hmap]
  refine orderByChainIndex_of_numbered ((orderByChainIndex_perm rows).symm.map _) ?_ ?_
  · intro g hg
    obtain ⟨s, hs, rfl⟩ := List.mem_map.mp hg
    have hgs := (hindex s hs _ rfl).trans (h.typed s hs).chainIndex.1
    rw [ActivityRow.index_eq hgs]
    exact hgs
  · intro i hi
    have hil : i < (orderByChainIndex rows).length := by simpa using hi
    have hmem := (orderByChainIndex_perm rows).mem_iff.mp (List.getElem_mem hil)
    have hgs := (hindex _ hmem _ rfl).trans (h.typed _ hmem).chainIndex.1
    rw [List.getElem_map, ActivityRow.index_eq hgs]
    exact h.numbered i hil

end SoundTable

/-! ### The three attacks -/

section Attacks

variable {rows : List ActivityRow} {r : ActivityRow} {c : Column} {v : SqlValue}

omit [PyRuntime] in
theorem typed_update (hr : r.Typed) (hv : c.admits v = true) :
    ActivityRow.Typed (Function.update r c v) := by
  intro d
  by_cases hd : d = c
  · subst hd
    rwa [Function.update_self]
  · rw [Function.update_of_ne hd]
    exact hr d

theorem rehash_typed (hr : r.Typed) :
    (rehash r).Typed ∧ ∃ e, computeEntryHash r.read = .ok e ∧ rehash r = Function.update r .entryHash (.text e) := by
  obtain ⟨b, -, he⟩ := computeEntryHash_of_typed hr
  have hre : rehash r = Function.update r .entryHash (.text (hexdigest b)) := by
    rw [rehash, he]
  have hhex : ∀ x ∈ hexAlphabet, x.isSurrogate = false := by decide
  refine ⟨?_, hexdigest b, he, hre⟩
  rw [hre]
  refine typed_update hr ?_
  simp only [Column.admits, Column.isInteger, Bool.not_false, Bool.true_and, List.all_eq_true,
    Bool.not_eq_true']
  exact fun x hx => hhex x (mem_hexAlphabet_of_mem_hexdigest hx)

/-- A rehashed record carries its own hash. -/
theorem rehash_own (hr : r.Typed) :
    ledgerView.hash (ledgerView.content (rehash r)) = ledgerView.entry (rehash r) := by
  obtain ⟨-, e, he, hre⟩ := rehash_typed hr
  have hread : computeEntryHash (rehash r).read = .ok e := by
    rw [← he]
    refine computeEntryHash_congr fun d hd => congrArg SqlValue.toScalar ?_
    rw [hre, Function.update_of_ne (mem_CHAINED_FIELDS.mp hd)]
  refine (ledgerView_hash_eq.mpr ((computeEntryHash_chained _).trans hread)).trans ?_
  simp only [ledgerView, ActivityRow.read, hre, Function.update_self, SqlValue.toScalar]

omit [PyRuntime] in
theorem mem_alterRecord (hr : r ∈ rows) (hrow : r .chainIndex = .integer r.index)
    (f : ActivityRow → ActivityRow) : f r ∈ alterRecord rows r.index f :=
  List.mem_map.mpr ⟨r, hr, if_pos hrow⟩

omit [PyRuntime] in
theorem alterRecord_typed (h : ∀ s ∈ rows, s.Typed) {k : Int} {f : ActivityRow → ActivityRow}
    (hf : ∀ s, s.Typed → (f s).Typed) : ∀ s ∈ alterRecord rows k f, s.Typed := by
  intro s hs
  obtain ⟨t, ht, rfl⟩ := List.mem_map.mp hs
  split
  · exact hf t (h t ht)
  · exact h t ht

/-- The verifier's answer on an altered table. -/
theorem SoundTable.verify_alter (h : SoundTable rows) (hne : rows ≠ []) (k : Int) {f : ActivityRow → ActivityRow}
    (hf : ∀ s, s.Typed → (f s).Typed) :
    ∃ res, verifyChain (alterRecord rows k f) = .ok res ∧
      (res.status = .BROKEN ↔ ¬ Chained (alterRecord rows k f)) :=
  verifyChain_broken_iff (alterRecord_typed h.typed hf) (fun h0 => hne (List.map_eq_nil_iff.mp h0))
    (by rw [alterRecord, List.length_map]; exact h.length_le)

/-- (a) An edit that leaves `entry_hash` alone breaks the chain. -/
theorem edit_detected (h : SoundTable rows) (hr : r ∈ rows) (hc : c ∈ CHAINED_FIELDS)
    (hadm : c.admits v = true) (hv : v ≠ r c)
    (hcoll : CollisionFree (rows ++ editField rows r.index c v)) :
    ¬ Chained (editField rows r.index c v) := by
  have hmem : Function.update r c v ∈ editField rows r.index c v :=
    mem_alterRecord hr (h.typed r hr).chainIndex.1 fun s => Function.update s c v
  have htyped := typed_update (h.typed r hr) hadm
  refine ChainView.not_linked_of_digest _ ((orderByChainIndex_perm _).mem_iff.mpr hmem) fun hd => ?_
  obtain ⟨b, -, he, hre⟩ := h.hash_eq hr
  have hentry : (Function.update r c v) .entryHash = .text (hexdigest b) := by
    rw [Function.update_of_ne (mem_CHAINED_FIELDS.mp hc).symm, hre]
  have hhash : computeEntryHash (ActivityRow.read (Function.update r c v)) =
      .ok (hexdigest b) := by
    rw [← computeEntryHash_chained]
    refine ledgerView_hash_eq.mp (hd.trans ?_)
    simp only [ledgerView, ActivityRow.read, hentry, SqlValue.toScalar]
  have heq := chained_eq_of_hash_eq hcoll (List.mem_append_right _ hmem)
    (List.mem_append_left _ hr) (fun d _ => plain_of_admits (htyped d))
    (fun d _ => plain_of_admits (h.typed r hr d)) hhash he c hc
  rw [Function.update_self] at heq
  exact hv heq

/-- A linked table of `n` records has no record numbered `n` or beyond. -/
theorem index_lt_of_chained (h : Chained rows) (hr : r ∈ rows)
    (hrow : r .chainIndex = .integer r.index) : r.index < rows.length := by
  obtain ⟨i, hi, hri⟩ := List.getElem_of_mem ((orderByChainIndex_perm rows).mem_iff.mpr hr)
  have hidx := ChainView.Linked.index_getElem _ h i hi
  rw [hri, ledgerView_index hrow] at hidx
  rw [(orderByChainIndex_perm rows).length_eq] at hi
  omega

omit [PyRuntime] in
theorem filter_ne_of_split {l l' : List ActivityRow} {k : Int}
    (hrow : r .chainIndex = .integer k)
    (hother : ∀ s, s ∈ l ∨ s ∈ l' → s .chainIndex ≠ .integer k) :
    (l ++ r :: l').filter (fun s => s .chainIndex ≠ .integer k) = l ++ l' := by
  have hkeep : ∀ l : List ActivityRow, (∀ s ∈ l, s .chainIndex ≠ .integer k) →
      l.filter (fun s => s .chainIndex ≠ .integer k) = l := fun l hl =>
    List.filter_eq_self.mpr fun s hs => decide_eq_true (hl s hs)
  rw [List.filter_append, List.filter_cons_of_neg (by simp [hrow]),
    hkeep l fun s hs => hother s (Or.inl hs), hkeep l' fun s hs => hother s (Or.inr hs)]

/-- (b) A deletion goes unnoticed exactly at the end of the chain: the records before the deleted one
verify on their own. -/
theorem delete_chained_iff (h : SoundTable rows) (hr : r ∈ rows) :
    Chained (deleteRecord rows r.index) ↔ r.index + 1 = rows.length := by
  have hrow := (h.typed r hr).chainIndex.1
  obtain ⟨l, l', hsplit, hlen, hother⟩ := h.split hr
  have hperm : (deleteRecord rows r.index).Perm (l ++ l') := by
    have := ((orderByChainIndex_perm rows).filter
      fun s => decide (s .chainIndex ≠ .integer r.index)).symm
    rwa [hsplit, filter_ne_of_split hrow hother] at this
  have htotal : rows.length = l.length + 1 + l'.length := by
    rw [← (orderByChainIndex_perm rows).length_eq, hsplit]
    simp only [List.length_append, List.length_cons]
    omega
  constructor
  · intro hch
    by_contra hne
    -- the last record is still there, numbered beyond the end
    obtain ⟨s, l'', rfl⟩ : ∃ s l'', l' = l'' ++ [s] :=
      ⟨l'.getLast (by rintro rfl; simp at htotal; omega), l'.dropLast,
        (List.dropLast_append_getLast _).symm⟩
    have hs : s ∈ deleteRecord rows r.index := hperm.mem_iff.mpr (by simp)
    have hsr : s ∈ rows := List.mem_of_mem_filter hs
    have hlinked := h.chained
    rw [Chained, hsplit, ← List.cons_append, ← List.append_assoc] at hlinked
    have hnum := (ChainView.linked_concat _ |>.mp hlinked).2.1
    rw [ledgerView_index (h.typed s hsr).chainIndex.1] at hnum
    have hlt := index_lt_of_chained hch hs (h.typed s hsr).chainIndex.1
    rw [hperm.length_eq] at hlt
    simp only [List.length_append, List.length_cons, List.length_nil] at hlt htotal hnum
    omega
  · intro hend
    have hl' : l' = [] := List.length_eq_zero_iff.mp (by omega)
    subst hl'
    rw [List.append_nil] at hperm
    have horder : orderByChainIndex (deleteRecord rows r.index) = l := by
      refine orderByChainIndex_of_numbered hperm ?_ ?_
      · exact fun s hs => (h.typed s (List.mem_of_mem_filter hs)).chainIndex.1
      · intro i hi
        have hil : i < (orderByChainIndex rows).length := by
          rw [(orderByChainIndex_perm rows).length_eq]
          omega
        have hnum := h.numbered i hil
        simp only [hsplit, List.getElem_append_left hi] at hnum
        exact hnum
    have hlinked := h.chained
    rw [Chained, hsplit] at hlinked
    rw [Chained, horder]
    exact (ChainView.linked_append _ |>.mp hlinked).1

/-- (c) A record that was renumbered leaves its own number unused. -/
theorem renumber_detected (h : SoundTable rows) (hr : r ∈ rows)
    (hadm : Column.chainIndex.admits v = true) (hv : v ≠ r .chainIndex) :
    ¬ Chained (editAndRehash rows r.index .chainIndex v) := by
  intro hch
  have hrow := (h.typed r hr).chainIndex.1
  obtain ⟨l, l', hsplit, hlen, -⟩ := h.split hr
  have hperm := orderByChainIndex_perm (editAndRehash rows r.index .chainIndex v)
  have hi : l.length < (orderByChainIndex (editAndRehash rows r.index .chainIndex v)).length := by
    rw [hperm.length_eq, editAndRehash, alterRecord, List.length_map,
      ← (orderByChainIndex_perm rows).length_eq, hsplit]
    simp
  -- the record at the old place is numbered like the altered one was
  have hmem := hperm.mem_iff.mp (List.getElem_mem hi)
  have hidx := ChainView.Linked.index_getElem _ hch l.length hi
  generalize (orderByChainIndex (editAndRehash rows r.index .chainIndex v))[l.length] = s at hmem hidx
  have htyped := alterRecord_typed h.typed
    (fun t ht => (rehash_typed (typed_update ht hadm)).1) s hmem
  have hnum : s .chainIndex = .integer r.index := by
    rw [htyped.chainIndex.1, ← hlen]
    rw [ledgerView_index htyped.chainIndex.1] at hidx
    rw [hidx, Nat.zero_add]
  obtain ⟨t, ht, rfl⟩ := List.mem_map.mp hmem
  split at hnum
  · obtain ⟨-, e, -, hre⟩ := rehash_typed (typed_update (h.typed t ht) hadm)
    beta_reduce at hnum
    rw [hre, Function.update_of_ne (by decide), Function.update_self] at hnum
    exact hv (hnum.trans hrow.symm)
  · exact absurd hnum (by assumption)

/-- (c) An edit with a recomputed hash that leaves the number alone goes unnoticed exactly if it
leaves the link alone and no record follows. -/
theorem rehash_chained_iff (h : SoundTable rows) (hr : r ∈ rows) (hc : c ∈ CHAINED_FIELDS)
    (hci : c ≠ .chainIndex) (hadm : c.admits v = true) (hv : v ≠ r c)
    (hcoll : CollisionFree (rows ++ editAndRehash rows r.index c v)) :
    Chained (editAndRehash rows r.index c v) ↔ r.index + 1 = rows.length ∧ c ≠ .prevHash := by
  have hrow := (h.typed r hr).chainIndex.1
  obtain ⟨l, l', hsplit, hlen, hother⟩ := h.split hr
  have htotal : rows.length = l.length + 1 + l'.length := by
    rw [← (orderByChainIndex_perm rows).length_eq, hsplit]
    simp only [List.length_append, List.length_cons]
    omega
  -- the altered record: the edit, and its own hash
  obtain ⟨r', hr'⟩ : ∃ r', r' = rehash (Function.update r c v) := ⟨_, rfl⟩
  obtain ⟨htyped, e, he, hre⟩ := rehash_typed (typed_update (h.typed r hr) hadm)
  rw [← hr'] at htyped hre
  have hfield : ∀ d, d ≠ .entryHash → r' d = Function.update r c v d :=
    fun d hd => by rw [hre, Function.update_of_ne hd]
  have hkeep : ∀ d, d ≠ .entryHash → d ≠ c → r' d = r d :=
    fun d hd hdc => by rw [hfield d hd, Function.update_of_ne hdc]
  have hentry : r' .entryHash = .text e := by rw [hre, Function.update_self]
  have hread : computeEntryHash r'.read = .ok e := by
    rw [← he]
    exact computeEntryHash_congr fun d hd =>
      congrArg SqlValue.toScalar (hfield d (mem_CHAINED_FIELDS.mp hd))
  have hmem : r' ∈ editAndRehash rows r.index c v := by
    rw [hr']
    exact mem_alterRecord hr hrow fun s => rehash (Function.update s c v)
  have horder : orderByChainIndex (editAndRehash rows r.index c v) = l ++ r' :: l' := by
    rw [hr']
    exact h.order_alter hr hsplit hother (f := fun s => rehash (Function.update s c v))
      (by rw [← hr', hkeep _ (by decide) (Ne.symm hci)])
  have hold := h.chained
  rw [Chained, hsplit, ChainView.linked_append] at hold
  obtain ⟨hl, hridx, hrprev, -, hrest⟩ := hold
  have hown : ledgerView.hash (ledgerView.content r') = ledgerView.entry r' := by
    rw [hr']
    exact rehash_own (typed_update (h.typed r hr) hadm)
  have hidx : ledgerView.index r' = ledgerView.index r := by
    simp only [ledgerView, hkeep _ (by decide) (Ne.symm hci)]
  -- without collisions the altered record has another hash
  have hmoved : ledgerView.entry r' ≠ ledgerView.entry r := by
    obtain ⟨b₀, -, he₀, hre₀⟩ := h.hash_eq hr
    intro heq
    have hee : e = hexdigest b₀ := by
      have hrr : r' .entryHash = r .entryHash :=
        SqlValue.toScalar_injective (Option.some.inj heq)
      rw [hentry, hre₀] at hrr
      exact SqlValue.text.inj hrr
    subst hee
    have hall := chained_eq_of_hash_eq hcoll (List.mem_append_right _ hmem)
      (List.mem_append_left _ hr) (fun d _ => plain_of_admits (htyped d))
      (fun d _ => plain_of_admits (h.typed r hr d)) hread he₀ c hc
    rw [hfield c (mem_CHAINED_FIELDS.mp hc), Function.update_self] at hall
    exact hv hall
  rw [Chained, horder, ChainView.linked_append]
  constructor
  · rintro ⟨-, -, hprev, -, hnext⟩
    refine ⟨?_, ?_⟩
    · cases l' with
      | nil =>
        rw [List.length_nil] at htotal
        omega
      | cons s l' => exact absurd (hnext.2.1.symm.trans hrest.2.1) hmoved
    · rintro rfl
      have hsame : r' .prevHash = r .prevHash :=
        SqlValue.toScalar_injective (Option.some.inj (hprev.trans hrprev.symm))
      rw [hfield _ (by decide), Function.update_self] at hsame
      exact hv hsame
  · rintro ⟨hend, hcp⟩
    have hl' : l' = [] := List.length_eq_zero_iff.mp (by omega)
    subst hl'
    refine ⟨hl, hidx.trans hridx, ?_, hown, trivial⟩
    rw [← hrprev]
    simp only [ledgerView, ActivityRow.read, hkeep _ (by decide) (Ne.symm hcp)]

/-- **Single-record tampering.** On a ledger of declared types that verifies, and for each of its
records: an edit of a chained field is detected; a deletion is detected exactly if the record is not the
last one; an edit with a recomputed hash is detected exactly if the record is not the last one or the
field is `chain_index` or `prev_hash`. -/
theorem tampering_detected {res : VerifyResult} (htyped : ∀ s ∈ rows, s.Typed)
    (hres : verifyChain rows = .ok res) (hvalid : res.status = .VALID) (hr : r ∈ rows) :
    (∀ c ∈ CHAINED_FIELDS, ∀ v, c.admits v = true → v ≠ r c →
      CollisionFree (rows ++ editField rows r.index c v) →
        ∃ res', verifyChain (editField rows r.index c v) = .ok res' ∧ res'.status = .BROKEN) ∧
    (∃ res', verifyChain (deleteRecord rows r.index) = .ok res' ∧
      (res'.status = .BROKEN ↔ r.index + 1 ≠ rows.length)) ∧
    (∀ c ∈ CHAINED_FIELDS, ∀ v, c.admits v = true → v ≠ r c →
      CollisionFree (rows ++ editAndRehash rows r.index c v) →
        ∃ res', verifyChain (editAndRehash rows r.index c v) = .ok res' ∧
          (res'.status = .BROKEN ↔
            r.index + 1 ≠ rows.length ∨ c = .chainIndex ∨ c = .prevHash)) := by
  have h := SoundTable.of_verify htyped hres (by rw [hvalid]; decide)
  have hne := (verifyChain_valid_iff.mp ⟨hres, hvalid⟩).1
  refine ⟨fun c hc v hadm hv hcoll => ?_, ?_, fun c hc v hadm hv hcoll => ?_⟩
  · obtain ⟨res', hres', hb⟩ := h.verify_alter hne r.index
      (f := fun s => Function.update s c v) fun s hs => typed_update hs hadm
    exact ⟨res', hres', hb.mpr (edit_detected h hr hc hadm hv hcoll)⟩
  · have hdel := delete_chained_iff h hr
    by_cases hnil : deleteRecord rows r.index = []
    · refine ⟨_, by rw [hnil, verifyChain_empty], ?_⟩
      rw [hnil] at hdel
      exact iff_of_false (fun hb => by cases hb) (not_not.mpr (hdel.mp trivial))
    · obtain ⟨res', hres', hb⟩ := verifyChain_broken_iff
        (fun s hs => htyped s (List.mem_of_mem_filter hs)) hnil
        (Nat.le_trans (List.length_filter_le _ _) h.length_le)
      exact ⟨res', hres', hb.trans (not_congr hdel)⟩
  · obtain ⟨res', hres', hb⟩ := h.verify_alter hne r.index
      (f := fun s => rehash (Function.update s c v))
      fun s hs => (rehash_typed (typed_update hs hadm)).1
    refine ⟨res', hres', hb.trans ?_⟩
    by_cases hci : c = .chainIndex
    · subst hci
      exact iff_of_true (renumber_detected h hr hadm hv) (Or.inr (Or.inl rfl))
    · have hiff := rehash_chained_iff h hr hc hci hadm hv hcoll
      rw [editAndRehash] at hiff
      rw [hiff]
      tauto

end Attacks

end Tampering

/-! ### The attacks on a ledger of two notes -/

section Notes

attribute [local instance] asciiRuntime

/-- The edit of a note: another model. -/
def edited (r : ActivityRow) : ActivityRow := Function.update r .model (.text (py "x"))

def editedHash₀ : PyStr := py "7216f01c39ee370654cbadc34d42ccca" ++ py "972a5163771e250a60193ff3ce4c74f3"

def editedHash₁ : PyStr := py "32a5701f5f1b02c08d2cd1f8439d7544" ++ py "7aba92f74023657207f54c3fddf42130"

theorem computeEntryHash_edited₀ : computeEntryHash (edited note₀).read = .ok editedHash₀ := by
  rw [computeEntryHash_eq_packed]
  decide +kernel

theorem computeEntryHash_edited₁ : computeEntryHash (edited note₁).read = .ok editedHash₁ := by
  rw [computeEntryHash_eq_packed]
  decide +kernel

theorem note_chainIndex : note₀ .chainIndex = .integer 0 ∧ note₁ .chainIndex = .integer 1 :=
  ⟨notes_invariant.numbered 0 (by decide), notes_invariant.numbered 1 (by decide)⟩

theorem alterRecord_notes (f : ActivityRow → ActivityRow) :
    alterRecord notes 0 f = [f note₀, note₁] ∧ alterRecord notes 1 f = [note₀, f note₁] := by
  simp [alterRecord, notes, note_chainIndex]

/-- Rehashing does not change what is hashed. -/
theorem computeEntryHash_rehash (r : ActivityRow) :
    computeEntryHash (rehash r).read = computeEntryHash r.read :=
  computeEntryHash_congr fun _ hc => congrArg SqlValue.toScalar
    (Function.update_of_ne (mem_CHAINED_FIELDS.mp hc) _ _)

/-- **The end of the chain is not anchored**: the ledger of one note is left when the second is
deleted, and a second note that is edited and rehashed is as good as the first. -/
theorem last_record_undetected :
    (∀ r ∈ notes, r.Typed) ∧ verifyChain notes = .ok (.valid 2 (some (.str noteHash₁))) ∧
      note₁ ∈ notes ∧ note₁.index = 1 ∧
      verifyChain (deleteRecord notes 1) = .ok (.valid 1 (some (.str noteHash₀))) ∧
      SqlValue.text (py "x") ≠ note₁ .model ∧
      CollisionFree (notes ++ editAndRehash notes 1 .model (.text (py "x"))) ∧
      ∃ res, verifyChain (editAndRehash notes 1 .model (.text (py "x"))) = .ok res ∧
        res.status = .VALID := by
  have hsound := notes_invariant.sound
  have hmem : note₁ ∈ notes := by simp [notes]
  have hindex : note₁.index = 1 := ActivityRow.index_eq note_chainIndex.2
  have hdelete : deleteRecord notes 1 = [note₀] := by
    simp [deleteRecord, notes, note_chainIndex]
  have halter : editAndRehash notes 1 .model (.text (py "x")) = [note₀, rehash (edited note₁)] :=
    (alterRecord_notes fun r => rehash (edited r)).2
  have hmodel : SqlValue.text (py "x") ≠ note₁ .model := by decide
  have hcoll : CollisionFree (notes ++ editAndRehash notes 1 .model (.text (py "x"))) := by
    rw [halter]
    exact collisionFree_of_hashes [(note₀, noteHash₀), (note₁, noteHash₁),
        (note₀, noteHash₀), (rehash (edited note₁), editedHash₁)]
      (by simp [computeEntryHash_note₀, computeEntryHash_note₁, computeEntryHash_rehash,
        computeEntryHash_edited₁])
      (by simp [show noteHash₀ ≠ noteHash₁ by decide, show noteHash₁ ≠ noteHash₀ by decide,
        show noteHash₀ ≠ editedHash₁ by decide, show editedHash₁ ≠ noteHash₀ by decide,
        show noteHash₁ ≠ editedHash₁ by decide, show editedHash₁ ≠ noteHash₁ by decide])
  have hdel := (delete_chained_iff hsound hmem).mpr (by rw [hindex]; rfl)
  have hedit := (rehash_chained_iff hsound hmem (c := .model) (by decide) (by decide) (by decide)
    hmodel (by rwa [hindex])).mpr ⟨by rw [hindex]; rfl, by decide⟩
  rw [hindex] at hdel hedit
  refine ⟨hsound.typed, verifyChain_notes, hmem, hindex, ?_, hmodel, hcoll, ?_⟩
  · rw [verifyChain_of_chained hdel (by rw [hdelete]; simp), headHash, hdelete]
    rfl
  · exact ⟨_, verifyChain_of_chained hedit (by rw [halter]; simp), rfl⟩

theorem tampering_detected_notes :
    (∃ res, verifyChain (editField notes 0 .model (.text (py "x"))) = .ok res ∧
      res.status = .BROKEN) ∧
    (∃ res, verifyChain (deleteRecord notes 0) = .ok res ∧ res.status = .BROKEN) ∧
    ∃ res, verifyChain (editAndRehash notes 0 .model (.text (py "x"))) = .ok res ∧
      res.status = .BROKEN := by
  have hindex : note₀.index = 0 := ActivityRow.index_eq note_chainIndex.1
  have hmodel : SqlValue.text (py "x") ≠ note₀ .model := by decide
  obtain ⟨hedit, hdelete, hrehash⟩ := tampering_detected notes_invariant.sound.typed
    verifyChain_notes rfl (show note₀ ∈ notes by simp [notes])
  rw [hindex] at hedit hdelete hrehash
  -- the edited note has a third hash, rehashed or not
  have hcoll : ∀ r, computeEntryHash r.read = .ok editedHash₀ →
      CollisionFree (notes ++ [r, note₁]) := fun r hr =>
    collisionFree_of_hashes [(note₀, noteHash₀), (note₁, noteHash₁), (r, editedHash₀),
        (note₁, noteHash₁)]
      (by simp [computeEntryHash_note₀, computeEntryHash_note₁, hr])
      (by simp [show noteHash₀ ≠ noteHash₁ by decide, show noteHash₁ ≠ noteHash₀ by decide,
        show noteHash₀ ≠ editedHash₀ by decide, show editedHash₀ ≠ noteHash₀ by decide,
        show noteHash₁ ≠ editedHash₀ by decide, show editedHash₀ ≠ noteHash₁ by decide])
  refine ⟨hedit .model (by decide) _ (by decide) hmodel ?_, ?_, ?_⟩
  · rw [show editField notes 0 .model (.text (py "x")) = [edited note₀, note₁] from
      (alterRecord_notes edited).1]
    exact hcoll _ computeEntryHash_edited₀
  · obtain ⟨res, hres, hb⟩ := hdelete
    exact ⟨res, hres, hb.mpr (by decide)⟩
  · obtain ⟨res, hres, hb⟩ := hrehash .model (by decide) _ (by decide) hmodel (by
      rw [show editAndRehash notes 0 .model (.text (py "x")) = [rehash (edited note₀), note₁] from
        (alterRecord_notes fun r => rehash (edited r)).1]
      exact hcoll _ ((computeEntryHash_rehash _).trans computeEntryHash_edited₀))
    exact ⟨res, hres, hb.mpr (Or.inl (by decide))⟩

end Notes

end FlopOffice.Proof
