/-
# FlopOffice.Identity.Ceiling — nonces between the two limits.

`validate_nonce` lets 19 digits pass, a column holds 63 bits. `reserve` checks the second limit itself,
`observe` leaves it to the insert: what lies between the two limits raises `OverflowError`. And `reserve`
writes the nonce it cannot issue into its message, which an `int` of more than 4300 digits prevents.
-/
import FlopOffice.Identity.Nonce

namespace FlopOffice.Identity

open FlopOffice.Lib FlopOffice.Python FlopOffice.Storage

section Ceiling

/-! ## One statement -/

/-- Every counter of the table is in range, as its column is. -/
def CountersStorable (db : Database) : Prop := ∀ d s, counter db d s ≤ MAX_STORABLE_NONCE

theorem current_isOk {d s : PyStr} (hd : ∃ b, utf8 d = .ok b) (hs : ∃ b, utf8 s = .ok b)
    (db : Database) : current d s db = .ok (counter db d s) := by
  have hdv := bindValue_str.mpr ⟨hd, rfl⟩
  have hsv := bindValue_str.mpr ⟨hs, rfl⟩
  simp only [current, selectNonce, hdv, hsv]
  rfl

/-- Nothing is read for a did or a scope that cannot be encoded. -/
theorem current_error {d s : PyStr} (h : ¬ ((∃ b, utf8 d = .ok b) ∧ ∃ b, utf8 s = .ok b))
    (db : Database) : ∃ e, current d s db = .error e ∧ e.cls = .unicodeEncodeError := by
  have hbind : ∀ {t : PyStr}, (∃ v, bindValue (.str t) = .ok v) ∨
      ∃ e, bindValue (.str t) = .error e ∧ e.cls = .unicodeEncodeError := by
    intro t
    simp only [bindValue]
    cases ht : utf8 t with
    | ok b => exact Or.inl ⟨_, rfl⟩
    | error e => exact Or.inr ⟨e, rfl, utf8_error ht⟩
  rcases hbind (t := d) with ⟨v, hv⟩ | ⟨e, he, hcls⟩
  · rcases hbind (t := s) with ⟨v', hv'⟩ | ⟨e, he, hcls⟩
    · exact absurd ⟨(bindValue_str.mp hv).1, (bindValue_str.mp hv').1⟩ h
    · refine ⟨e, ?_, hcls⟩
      simp only [current, selectNonce, hv, he]
      rfl
  · refine ⟨e, ?_, hcls⟩
    simp only [current, selectNonce, he]
    rfl

theorem storable_of_upsertNonce {d s : PyStr} {n : Int} {db db' : Database}
    (h : upsertNonce d s n db = .ok ((), db')) : n ≤ MAX_STORABLE_NONCE := by
  simp only [upsertNonce, bind_eq_ok] at h
  obtain ⟨_, -, _, -, v, hv, -⟩ := h
  replace hv : (if storable n then Except.ok (SqlValue.integer n) else _) = .ok v := hv
  split at hv
  · rename_i hn
    exact (storable_iff.mp hn).2
  · cases hv

theorem upsertNonce_isOk {d s : PyStr} {n : Int} {db : Database} (hd : ∃ b, utf8 d = .ok b)
    (hs : ∃ b, utf8 s = .ok b) (hn : 0 ≤ n) (hmax : n ≤ MAX_STORABLE_NONCE) :
    ∃ db', upsertNonce d s n db = .ok ((), db') := by
  have hdv := bindValue_str.mpr ⟨hd, rfl⟩
  have hsv := bindValue_str.mpr ⟨hs, rfl⟩
  have hstorable : storable n = true := storable_iff.mpr ⟨by omega, hmax⟩
  have hnv : bindValue (.int n) = .ok (.integer n) := if_pos hstorable
  simp only [upsertNonce, hdv, hsv, hnv, if_pos hn]
  exact ⟨_, rfl⟩

/-- What no column holds is not written. -/
theorem upsertNonce_overflow {d s : PyStr} {n : Int} {db : Database} (hd : ∃ b, utf8 d = .ok b)
    (hs : ∃ b, utf8 s = .ok b) (hmax : MAX_STORABLE_NONCE < n) :
    upsertNonce d s n db = .error ⟨.overflowError, []⟩ := by
  have hdv := bindValue_str.mpr ⟨hd, rfl⟩
  have hsv := bindValue_str.mpr ⟨hs, rfl⟩
  have hstorable : ¬ storable n = true := fun h => by
    have := (storable_iff.mp h).2
    unfold MAX_STORABLE_NONCE at hmax
    omega
  have hnv : bindValue (.int n) = .error ⟨.overflowError, []⟩ := if_neg hstorable
  simp only [upsertNonce, hdv, hsv, hnv]
  rfl

variable [PyRuntime]

/-! ## Calls -/

/-- A call that runs alone: what it raises or returns, and the table it leaves. -/
def callAlone (call : NonceCall) (db : Database) : Except Exc Int × Database :=
  match call.prog with
  | .error e => (.error e, db)
  | .ok block => match block.run db with
    | .ok (n, db') => (.ok n, db')
    | .error e => (.error e, db)

/-- The call stores and returns the larger of the two, or raises `NonceError` and leaves the counter. -/
def ObservesMax (d s : PyStr) (nonce : PyInt) (db : Database) : Prop :=
  let out := callAlone (.observe d s nonce) db
  (out.1 = .ok (max (counter db d s) nonce.toInt) ∧
      counter out.2 d s = max (counter db d s) nonce.toInt) ∨
    ∃ e, out.1 = .error e ∧ e.cls = .nonceError ∧ counter out.2 d s = counter db d s

/-- The call returns more than `n`, or raises `NonceError` and leaves the counter. -/
def ReservesAbove (d s : PyStr) (floor n : Int) (db : Database) : Prop :=
  let out := callAlone (.reserve d s floor) db
  (∃ k, out.1 = .ok k ∧ n < k) ∨
    ∃ e, out.1 = .error e ∧ e.cls = .nonceError ∧ counter out.2 d s = counter db d s

/-- **When an observation does what it says**: exactly if its pair can be encoded, and its nonce stored. -/
theorem observesMax_iff {d s : PyStr} {nonce : PyInt} {n : Int} (hnonce : validateNonce nonce = .ok n)
    {db : Database} (hdb : CountersStorable db) :
    ObservesMax d s nonce db ↔
      (∃ b, utf8 d = .ok b) ∧ (∃ b, utf8 s = .ok b) ∧ n ≤ MAX_STORABLE_NONCE := by
  obtain ⟨k, rfl, rfl, -⟩ := validateNonce_eq_ok.mp hnonce
  have hprog : (NonceCall.observe d s (.int k)).prog = .ok (observeBlock d s k) := by
    simp only [NonceCall.prog, observe, hnonce]
  have hread := fun h => current_isOk (d := d) (s := s) h
  by_cases hutf : (∃ b, utf8 d = .ok b) ∧ ∃ b, utf8 s = .ok b
  · obtain ⟨hd, hs⟩ := hutf
    have hcounter := hdb d s
    -- the transaction reads its counter, compares, and writes
    have hrun : (observeBlock d s k).run db = if (k : Int) ≤ counter db d s then
        .ok (counter db d s, db) else (upsertNonce d s k db).map fun r => ((k : Int), r.2) := by
      unfold observeBlock
      rw [Block.run_bind, Block.run_stmt, current_isOk hd hs db]
      show Block.run (if _ then _ else _) db = _
      split
      · rfl
      · rw [Block.run_bind, Block.run_stmt]
        cases upsertNonce d s k db <;> rfl
    have hout : ∀ r, (observeBlock d s k).run db = r → callAlone (.observe d s (.int k)) db =
        match r with
        | .ok (n, db') => (.ok n, db')
        | .error e => (.error e, db) := by
      rintro _ rfl
      simp only [callAlone, hprog]
    unfold ObservesMax
    by_cases hle : (k : Int) ≤ counter db d s
    · rw [if_pos hle] at hrun
      rw [hout _ hrun]
      have hmax : max (counter db d s) (PyInt.int k).toInt = counter db d s := max_eq_left hle
      exact iff_of_true (Or.inl ⟨congrArg Except.ok hmax.symm, hmax.symm⟩) ⟨hd, hs, hle.trans hcounter⟩
    · rw [if_neg hle] at hrun
      have hmax : max (counter db d s) (PyInt.int k).toInt = k := max_eq_right (Int.not_le.mp hle).le
      by_cases hstore : (k : Int) ≤ MAX_STORABLE_NONCE
      · obtain ⟨db', hins⟩ : ∃ db', upsertNonce d s k db = .ok ((), db') :=
          upsertNonce_isOk hd hs (Int.natCast_nonneg k) hstore
        rw [hins] at hrun
        rw [hout _ hrun]
        refine iff_of_true (Or.inl ⟨congrArg Except.ok hmax.symm, ?_⟩) ⟨hd, hs, hstore⟩
        show counter db' d s = _
        rw [hmax, counter, (upsertNonce_eq_ok hins).2, if_pos ⟨rfl, rfl⟩]
        rfl
      · rw [upsertNonce_overflow hd hs (Int.not_le.mp hstore)] at hrun
        rw [hout _ hrun]
        refine iff_of_false ?_ fun h => hstore h.2.2
        rintro (⟨h, -⟩ | ⟨e, he, hcls, -⟩)
        · cases h
        · cases he
          cases hcls
  · obtain ⟨e, he, hcls⟩ := current_error hutf db
    have hrun : (observeBlock d s k).run db = .error e := by
      unfold observeBlock
      rw [Block.run_bind, Block.run_stmt, he]
      rfl
    refine iff_of_false ?_ fun h => hutf ⟨h.1, h.2.1⟩
    unfold ObservesMax
    simp only [callAlone, hprog, hrun]
    rintro (⟨h, -⟩ | ⟨e', he', hcls', -⟩)
    · cases h
    · cases he'
      rw [hcls] at hcls'
      cases hcls'

/-- What `reserve` has to say about a nonce it cannot issue can be said. -/
def FloorShown (d s : PyStr) (floor : Int) : Prop :=
  d = [] ∨ s = [] ∨ floor < 0 ∨ floor + 1 < 10 ^ maxStrDigits

/-- **When a reservation issues a nonce or raises `NonceError`**: exactly if its floor can be shown. -/
theorem reservesAbove_iff {d s : PyStr} {floor n : Int} (hd : ∃ b, utf8 d = .ok b)
    (hs : ∃ b, utf8 s = .ok b) {db : Database} (hdb : CountersStorable db) (hn : n ≤ counter db d s) :
    ReservesAbove d s floor n db ↔ FloorShown d s floor := by
  have hrefused : ∀ {e}, Identity.reserve d s floor = .error e → e.cls = .nonceError →
      ReservesAbove d s floor n db := by
    intro e he hcls
    have hprog : (NonceCall.reserve d s floor).prog = .error e := by simp only [NonceCall.prog, he]
    unfold ReservesAbove callAlone
    rw [hprog]
    exact Or.inr ⟨e, rfl, hcls, rfl⟩
  by_cases hd0 : d = []
  · exact iff_of_true (hrefused (if_pos hd0) rfl) (Or.inl hd0)
  by_cases hs0 : s = []
  · exact iff_of_true (hrefused ((if_neg hd0).trans (if_pos hs0)) rfl) (Or.inr (Or.inl hs0))
  by_cases hfloor : floor < 0
  · exact iff_of_true (hrefused ((if_neg hd0).trans ((if_neg hs0).trans (if_pos hfloor))) rfl)
      (Or.inr (Or.inr (Or.inl hfloor)))
  have hshown : FloorShown d s floor ↔ floor + 1 < 10 ^ maxStrDigits := by
    simp only [FloorShown, hd0, hs0, hfloor, false_or]
  rw [hshown]
  have hreserve : Identity.reserve d s floor = .ok (reserveBlock d s floor) :=
    (if_neg hd0).trans ((if_neg hs0).trans (if_neg hfloor))
  have hprog : (NonceCall.reserve d s floor).prog =
      .ok ((reserveBlock d s floor).bind fun r => .ret r.nonce) := by
    simp only [NonceCall.prog, hreserve]
  have hreturned : ∀ r db', (reserveBlock d s floor).run db = .ok (r, db') →
      callAlone (.reserve d s floor) db = (.ok r.nonce, db') := by
    intro r db' hr
    simp only [callAlone, hprog, Block.run_bind', hr]
    rfl
  have hraised : ∀ e, (reserveBlock d s floor).run db = .error e →
      callAlone (.reserve d s floor) db = (.error e, db) := by
    intro e hr
    simp only [callAlone, hprog, Block.run_bind', hr]
  have hcounter := hdb d s
  obtain ⟨nxt, hnxt⟩ : ∃ nxt, nxt = max (counter db d s) floor + 1 := ⟨_, rfl⟩
  have hrun : (reserveBlock d s floor).run db = if nxt > MAX_STORABLE_NONCE then
      (do
        let text ← Block.lift (strInt nxt)
        .throw ⟨.nonceError, py "nonce space exhausted for scope " ++ pyRepr s ++ py ": " ++ text ++
          py " exceeds the storable maximum 9223372036854775807"⟩ :
        Block Database Exc Reservation).run db
    else (upsertNonce d s nxt db).map fun r => ((⟨d, s, nxt⟩ : Reservation), r.2) := by
    unfold reserveBlock
    rw [Block.run_bind, Block.run_stmt, current_isOk hd hs db]
    show Block.run (if max (counter db d s) floor + 1 > MAX_STORABLE_NONCE then _ else _) db = _
    rw [← hnxt]
    split
    · rfl
    · rename_i hmax
      -- what fits a column has at most 19 digits
      have hvalid : validateNonce (.int nxt) = .ok nxt := by
        refine validateNonce_eq_ok.mpr ⟨nxt.toNat, ?_, ?_, ?_⟩
        · rw [Int.toNat_of_nonneg (by omega)]
        · rw [Int.toNat_of_nonneg (by omega)]
        · unfold MAX_STORABLE_NONCE at hmax
          omega
      rw [hvalid]
      dsimp only
      rw [Block.run_bind, Block.run_stmt]
      cases upsertNonce d s nxt db <;> rfl
  unfold ReservesAbove
  by_cases hmax : nxt > MAX_STORABLE_NONCE
  · rw [if_pos hmax, Block.run_bind, Block.run_lift] at hrun
    -- the counter fits a column, so it is the floor that does not
    have habs : nxt.natAbs < 10 ^ maxStrDigits ↔ floor + 1 < 10 ^ maxStrDigits := by
      have hbig : MAX_STORABLE_NONCE + 1 < (10 : Int) ^ maxStrDigits := by decide +kernel
      have hcast : ((10 ^ maxStrDigits : Nat) : Int) = (10 : Int) ^ maxStrDigits :=
        Int.natCast_pow 10 maxStrDigits
      have hnonneg : (nxt.natAbs : Int) = nxt := Int.natAbs_of_nonneg (by omega)
      rw [← Int.ofNat_lt, hcast, hnonneg]
      generalize (10 : Int) ^ maxStrDigits = bound at hbig ⊢
      omega
    rw [← habs, ← strInt_isOk_iff]
    cases htext : strInt nxt with
    | ok text =>
      rw [htext] at hrun
      rw [hraised _ hrun]
      exact iff_of_true (Or.inr ⟨_, rfl, rfl, rfl⟩) ⟨text, rfl⟩
    | error e =>
      rw [htext] at hrun
      rw [hraised _ hrun]
      refine iff_of_false ?_ (by rintro ⟨_, ⟨⟩⟩)
      rintro (⟨k, hk, -⟩ | ⟨e', he', hcls, -⟩)
      · cases hk
      · cases he'
        rw [strInt_error htext] at hcls
        cases hcls
  · rw [if_neg hmax] at hrun
    obtain ⟨db', hins⟩ : ∃ db', upsertNonce d s nxt db = .ok ((), db') :=
      upsertNonce_isOk hd hs (by omega) (by omega)
    rw [hins] at hrun
    rw [hreturned _ _ hrun]
    refine iff_of_true (Or.inl ⟨nxt, rfl, by omega⟩) ?_
    have hbig : MAX_STORABLE_NONCE + 1 < (10 : Int) ^ maxStrDigits := by decide +kernel
    generalize (10 : Int) ^ maxStrDigits = bound at hbig ⊢
    omega

/-! ## Runs -/

/-- What a call that returns has done to the table: nothing, or one upsert. -/
theorem upsert_of_run {call : NonceCall} {b : Block Database Exc Int} {db db' : Database} {n : Int}
    (hb : call.prog = .ok b) (h : b.run db = .ok (n, db')) :
    db' = db ∨ ∃ d s k, upsertNonce d s k db = .ok ((), db') := by
  cases call with
  | reserve d s floor =>
    simp only [NonceCall.prog] at hb
    cases hr : Identity.reserve d s floor with
    | error e =>
      rw [hr] at hb
      cases hb
    | ok block =>
      rw [hr] at hb
      cases hb
      obtain ⟨r, db₁, hrun, hret⟩ := Block.run_bind_eq_ok h
      cases hret
      have hblock : block = reserveBlock d s floor := by
        unfold Identity.reserve at hr
        split at hr
        · cases hr
        split at hr
        · cases hr
        split at hr
        · cases hr
        · cases hr
          rfl
      rw [hblock] at hrun
      exact Or.inr ⟨d, s, _, (reserveBlock_run hrun).2⟩
  | observe d s nonce =>
    simp only [NonceCall.prog, observe] at hb
    split at hb
    · cases hb
      rcases observeBlock_run h with ⟨-, hsame⟩ | ⟨-, hins⟩
      · exact Or.inl hsame
      · exact Or.inr ⟨d, s, _, hins⟩
    · cases hb

/-- **No call leaves the range of the column.** -/
theorem countersStorable_serial {db₀ db : Database} {log : List (NonceCall × Int)}
    (h : Serial NonceCall.prog db₀ log db) (hdb : CountersStorable db₀) : CountersStorable db := by
  refine h.invariant CountersStorable hdb fun call b db n db' hdb hb hrun d s => ?_
  rcases upsert_of_run hb hrun with rfl | ⟨d', s', k, hins⟩
  · exact hdb d s
  · rw [counter, (upsertNonce_eq_ok hins).2]
    split
    · exact storable_of_upsertNonce hins
    · exact hdb d s

/-- **Observed nonces near the limit.** An observation stores and returns the larger nonce, and every
reservation after it, in every run, issues more than was observed or raises `NonceError`: exactly if the
pair can be encoded, the nonce fits a column, and the floor of the reservation can be shown. -/
theorem observed_nonce_iff {d s : PyStr} {nonce : PyInt} {n : Int} (floor : Int)
    (hnonce : validateNonce nonce = .ok n) {db : Database} (hdb : CountersStorable db) :
    (ObservesMax d s nonce db ∧
      ∀ (Conn : Type) [DecidableEq Conn] (evs : List (Event Conn Exc Int NonceCall))
        (m : Machine Conn Database Exc Int NonceCall) (r : Int),
        Run NonceCall.prog (Machine.start db) evs m → (.observe d s nonce, r) ∈ returns evs →
        ReservesAbove d s floor n m.store) ↔
    (∃ b, utf8 d = .ok b) ∧ (∃ b, utf8 s = .ok b) ∧ n ≤ MAX_STORABLE_NONCE ∧ FloorShown d s floor := by
  obtain ⟨k, rfl, rfl, -⟩ := validateNonce_eq_ok.mp hnonce
  rw [observesMax_iff hnonce hdb]
  constructor
  · rintro ⟨⟨hd, hs, hmax⟩, hlater⟩
    refine ⟨hd, hs, hmax, ?_⟩
    -- the observation alone is a run
    have hprog : (NonceCall.observe d s (.int k)).prog = .ok (observeBlock d s k) := by
      simp only [NonceCall.prog, observe, hnonce]
    have hobserves := (observesMax_iff hnonce hdb).mpr ⟨hd, hs, hmax⟩
    have hrun : ∃ r db', (observeBlock d s k).run db = .ok (r, db') := by
      unfold ObservesMax callAlone at hobserves
      rw [hprog] at hobserves
      cases h : (observeBlock d s k).run db with
      | ok out => exact ⟨out.1, out.2, rfl⟩
      | error e =>
        exfalso
        obtain ⟨e', he'⟩ : ∃ e', current d s db = .error e' ∨
            upsertNonce d s k db = .error e' := by
          unfold observeBlock at h
          rw [Block.run_bind, Block.run_stmt, current_isOk hd hs db] at h
          replace h : Block.run (if _ then _ else _) db = _ := h
          split at h
          · cases h
          · rw [Block.run_bind, Block.run_stmt] at h
            cases hu : upsertNonce d s k db with
            | ok u =>
              rw [hu] at h
              cases h
            | error e' => exact ⟨e', Or.inr rfl⟩
        rcases he' with he' | he'
        · rw [current_isOk hd hs db] at he'
          cases he'
        · obtain ⟨db', hins⟩ : ∃ db', upsertNonce d s k db = .ok ((), db') :=
            upsertNonce_isOk hd hs (Int.natCast_nonneg k) hmax
          rw [hins] at he'
          cases he'
    obtain ⟨r, db', hrun⟩ := hrun
    have hserial : Serial NonceCall.prog db ([] ++ [(.observe d s (.int k), r)]) db' :=
      Serial.nil.snoc hprog hrun
    obtain ⟨evs, hevs, hret⟩ := hserial.run ()
    have hmem : (NonceCall.observe d s (.int k), r) ∈ returns evs := by
      rw [hret]
      exact List.mem_singleton_self _
    have habove := hlater Unit evs _ r hevs hmem
    have hle : (k : Int) ≤ counter db' d s := by
      rw [(serial_counter hserial d s).1]
      exact Counter.le_final_of_raise (List.mem_filterMap.mpr ⟨_, List.mem_singleton_self _, if_pos ⟨rfl, rfl⟩⟩)
    exact (reservesAbove_iff hd hs (countersStorable_serial hserial hdb) hle).mp habove
  · rintro ⟨hd, hs, hmax, hshown⟩
    refine ⟨⟨hd, hs, hmax⟩, fun Conn _ evs m r hrun hmem => ?_⟩
    have hserial := hrun.serial
    have hle : (k : Int) ≤ counter m.store d s := by
      rw [(serial_counter hserial d s).1]
      exact Counter.le_final_of_raise (List.mem_filterMap.mpr ⟨_, hmem, if_pos ⟨rfl, rfl⟩⟩)
    exact (reservesAbove_iff hd hs (countersStorable_serial hserial hdb) hle).mpr hshown

end Ceiling

section Lobby

attribute [local instance] asciiRuntime

theorem countersStorable_empty : CountersStorable ⟨[], []⟩ := fun _ _ => by
  show (0 : Int) ≤ MAX_STORABLE_NONCE
  decide

/-- **An accepted nonce that no column holds**: 2^63, in an empty table. -/
theorem observe_overflows : ¬ ∀ d s nonce n db, validateNonce nonce = .ok n →
    CountersStorable db → ObservesMax d s nonce db := by
  intro hall
  have hnonce : validateNonce (.int (2 ^ 63)) = .ok (2 ^ 63) := by decide
  have hmax := hall (py "did:key:z") (py "lobby") _ _ _ hnonce countersStorable_empty
  have hle := ((observesMax_iff hnonce countersStorable_empty).mp hmax).2.2
  revert hle
  decide

theorem observed_nonce_iff_lobby :
    ObservesMax (py "did:key:z") (py "lobby") (.int 5) ⟨[], []⟩ := by
  have hnonce : validateNonce (.int 5) = .ok 5 := by decide
  have hshown : FloorShown (py "did:key:z") (py "lobby") 0 := by
    refine Or.inr (Or.inr (Or.inr ?_))
    decide +kernel
  exact ((observed_nonce_iff 0 hnonce countersStorable_empty).mpr
    ⟨⟨_, rfl⟩, ⟨_, rfl⟩, by decide, hshown⟩).1

end Lobby

end FlopOffice.Identity
