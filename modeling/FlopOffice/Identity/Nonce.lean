/-
# FlopOffice.Identity.Nonce — durable, monotonic nonce issuance.

`reserve` and `observe` are transactions over one row of `nonces`: read, compare, write. Run alone,
each is one operation of `Lib.Counter` on the row of its pair and touches no other row
(`NonceCall.run_spec`). Transactions serialise, so after any interleaving of any number of calls,
each of them aborted anywhere or not at all, the table holds the counters of the calls that returned
(`serial_counter`), and `nonces_issued` reads the guarantees off the counter.
-/
import FlopOffice.Identity.Canonical
import FlopOffice.Lib.Counter
import FlopOffice.Lib.Transaction
import FlopOffice.Storage.Db

namespace FlopOffice.Identity

open FlopOffice.Lib FlopOffice.Python FlopOffice.Storage

/-! ## Scopes -/

/-- Nonce scope for a room message: the room itself. -/
def scopeForRoom (room : PyStr) : PyStr := room

/-- Nonce scope for a kv note. -/
def scopeForKv (namespace_ : PyStr) : PyStr := py "kv:" ++ namespace_

structure Reservation where
  agentDid : PyStr
  scope : PyStr
  nonce : Int
  deriving DecidableEq

/-! ## The store -/

/-- `NonceStore.current`. -/
def current (agentDid scope : PyStr) (db : Database) : Except Exc Int :=
  (selectNonce agentDid scope db).map fun row => row.getD 0

section Store

variable [PyRuntime]

/-- The transaction of `reserve`. -/
def reserveBlock (agentDid scope : PyStr) (floor : Int) : Block Database Exc Reservation := do
  let stored ← Block.stmt fun db => (current agentDid scope db).map fun n => (n, db)
  let nxt := max stored floor + 1
  if nxt > MAX_STORABLE_NONCE then
    let text ← Block.lift (strInt nxt)
    .throw ⟨.nonceError, py "nonce space exhausted for scope " ++ pyRepr scope ++ py ": " ++ text ++
      py " exceeds the storable maximum 9223372036854775807"⟩
  else
    match validateNonce (.int nxt) with
    | .error e =>
      if e.cls = .canonicalisationError then
        .throw ⟨.nonceError, py "nonce space exhausted for scope " ++ pyRepr scope ++
          py " (>19 digits)"⟩
      else .throw e
    | .ok _ =>
      Block.stmt (upsertNonce agentDid scope nxt)
      pure ⟨agentDid, scope, nxt⟩

/-- `NonceStore.reserve`: refused before the transaction, or a transaction. -/
def reserve (agentDid scope : PyStr) (floor : Int) :
    Except Exc (Block Database Exc Reservation) :=
  if agentDid = [] then .error ⟨.nonceError, py "agent_did must be a non-empty str"⟩
  else if scope = [] then .error ⟨.nonceError, py "scope must be a non-empty str"⟩
  else if floor < 0 then .error ⟨.nonceError, py "floor must not be negative"⟩
  else .ok (reserveBlock agentDid scope floor)

end Store

/-- The transaction of `observe`. -/
def observeBlock (agentDid scope : PyStr) (nonce : Int) : Block Database Exc Int := do
  let stored ← Block.stmt fun db => (current agentDid scope db).map fun n => (n, db)
  if nonce ≤ stored then pure stored
  else
    Block.stmt (upsertNonce agentDid scope nonce)
    pure nonce

/-- `NonceStore.observe`. -/
def observe (agentDid scope : PyStr) (nonce : PyInt) : Except Exc (Block Database Exc Int) :=
  match validateNonce nonce with
  | .ok nonce => .ok (observeBlock agentDid scope nonce)
  | .error e => .error e

/-! ## One statement -/

/-- The row of a pair. -/
def nonceRow? (db : Database) (agentDid scope : PyStr) : Option Int :=
  (db.nonces.find? fun r => r.agentDid == agentDid && r.scope == scope).map NonceRow.lastNonce

/-- The counter of a pair: its row, or 0. -/
def counter (db : Database) (agentDid scope : PyStr) : Int := (nonceRow? db agentDid scope).getD 0

theorem current_eq_ok {agentDid scope : PyStr} {db : Database} {n : Int}
    (h : current agentDid scope db = .ok n) : n = counter db agentDid scope := by
  obtain ⟨row, hrow, rfl⟩ := map_eq_ok.mp h
  simp only [selectNonce, bind_eq_ok, pure, Except.pure, Except.ok.injEq] at hrow
  obtain ⟨_, -, _, -, rfl⟩ := hrow
  rfl

theorem find?_hit {rows : List NonceRow} {d s d' s' : PyStr} {n : Int} :
    let hit := fun r : NonceRow => r.agentDid == d && r.scope == s
    let hit' := fun r : NonceRow => r.agentDid == d' && r.scope == s'
    ((rows.map fun r => if hit r then { r with lastNonce := n } else r).find? hit').map
        NonceRow.lastNonce =
      if d' = d ∧ s' = s then (rows.find? hit).map fun _ => n
      else (rows.find? hit').map NonceRow.lastNonce := by
  intro hit hit'
  induction rows with
  | nil => simp
  | cons r rows ih =>
    have hpair : ∀ r : NonceRow, hit' (if hit r then { r with lastNonce := n } else r) = hit' r := by
      intro r
      split <;> rfl
    by_cases hr : hit' r = true
    · rw [List.map_cons, List.find?_cons_of_pos (by rw [hpair]; exact hr), Option.map_some]
      obtain ⟨hd, hs⟩ : r.agentDid = d' ∧ r.scope = s' := by simpa [hit'] using hr
      by_cases hp : d' = d ∧ s' = s
      · have hhit : hit r = true := by simp [hit, hd, hs, hp.1, hp.2]
        rw [if_pos hp, if_pos hhit, List.find?_cons_of_pos hhit]
        rfl
      · have hhit : ¬ hit r = true := by
          simp only [hit, hd, hs, Bool.and_eq_true, beq_iff_eq]
          exact hp
        rw [if_neg hp, if_neg hhit, List.find?_cons_of_pos hr]
        rfl
    · rw [List.map_cons, List.find?_cons_of_neg (by rw [hpair]; exact hr), ih]
      by_cases hp : d' = d ∧ s' = s
      · obtain ⟨rfl, rfl⟩ := hp
        rw [if_pos ⟨rfl, rfl⟩, if_pos ⟨rfl, rfl⟩, List.find?_cons_of_neg hr]
      · rw [if_neg hp, if_neg hp, List.find?_cons_of_neg hr]

/-- **What the upsert does**: the row of its pair holds the nonce, every other row is as it was. -/
theorem upsertNonce_eq_ok {d s : PyStr} {n : Int} {db db' : Database}
    (h : upsertNonce d s n db = .ok ((), db')) :
    db'.activities = db.activities ∧ ∀ d' s', nonceRow? db' d' s' =
      if d' = d ∧ s' = s then some n else nonceRow? db d' s' := by
  simp only [upsertNonce, bind_eq_ok] at h
  obtain ⟨_, -, _, -, _, -, h⟩ := h
  split at h
  · cases h
    refine ⟨rfl, fun d' s' => ?_⟩
    simp only [nonceRow?]
    split
    · rename_i hany
      rw [find?_hit]
      split
      · obtain ⟨r, hr, hhit⟩ := List.any_eq_true.mp hany
        have hsome : (db.nonces.find? fun r => r.agentDid == d && r.scope == s).isSome :=
          List.find?_isSome.mpr ⟨r, hr, hhit⟩
        obtain ⟨r', hr'⟩ := Option.isSome_iff_exists.mp hsome
        rw [hr']
        rfl
      · rfl
    · rename_i hany
      rw [Bool.not_eq_true, List.any_eq_false] at hany
      rw [List.find?_append]
      by_cases hp : d' = d ∧ s' = s
      · obtain ⟨rfl, rfl⟩ := hp
        have hnone := List.find?_eq_none.mpr hany
        rw [hnone]
        simp
      · rw [if_neg hp]
        have hnone : ¬ (d == d' && s == s') = true := by
          simp only [Bool.and_eq_true, beq_iff_eq]
          exact fun hh => hp ⟨hh.1.symm, hh.2.symm⟩
        simp [hnone]
  · cases h

/-! ## One call, run alone -/

section Calls

variable [PyRuntime]

/-- A call of one of the two. -/
inductive NonceCall
  | reserve (agentDid scope : PyStr) (floor : Int)
  | observe (agentDid scope : PyStr) (nonce : PyInt)
  deriving DecidableEq

/-- What a connection runs for a call; both return a nonce. -/
def NonceCall.prog : NonceCall → Except Exc (Block Database Exc Int)
  | .reserve agentDid scope floor =>
    match Identity.reserve agentDid scope floor with
    | .ok b => .ok (b.bind fun r => .ret r.nonce)
    | .error e => .error e
  | .observe agentDid scope nonce => Identity.observe agentDid scope nonce

omit [PyRuntime] in
/-- The counter operation a call stands for, on the counter of the pair `(d, s)`. -/
def NonceCall.op? (d s : PyStr) : NonceCall → Option Counter.Op
  | .reserve agentDid scope floor =>
    if agentDid = d ∧ scope = s then some (.issue floor) else none
  | .observe agentDid scope nonce =>
    if agentDid = d ∧ scope = s then some (.raise nonce.toInt) else none

theorem reserve_eq_ok {d s : PyStr} {floor : Int} {b : Block Database Exc Reservation}
    (h : reserve d s floor = .ok b) : b = reserveBlock d s floor := by
  unfold reserve at h
  split at h
  · cases h
  split at h
  · cases h
  split at h
  · cases h
  · cases h
    rfl

/-- What a reservation that succeeds does. -/
theorem reserveBlock_run {d s : PyStr} {floor : Int} {db db' : Database} {r : Reservation}
    (h : (reserveBlock d s floor).run db = .ok (r, db')) :
    r = ⟨d, s, max (counter db d s) floor + 1⟩ ∧
      upsertNonce d s (max (counter db d s) floor + 1) db = .ok ((), db') := by
  obtain ⟨stored, _, hread, h₁⟩ := Block.run_bind_eq_ok h
  rw [Block.run_stmt] at hread
  obtain ⟨n, hn, heq⟩ := map_eq_ok.mp hread
  cases heq
  obtain rfl := current_eq_ok hn
  dsimp only at h₁
  split at h₁
  · obtain ⟨_, _, -, h₂⟩ := Block.run_bind_eq_ok h₁
    cases h₂
  · split at h₁
    · split at h₁ <;> cases h₁
    · obtain ⟨_, _, hins, h₂⟩ := Block.run_bind_eq_ok h₁
      rw [Block.run_stmt] at hins
      cases h₂
      exact ⟨rfl, hins⟩

omit [PyRuntime] in
/-- What an observation does: write the nonce, unless the counter is there already. -/
theorem observeBlock_run {d s : PyStr} {nonce : Int} {db db' : Database} {r : Int}
    (h : (observeBlock d s nonce).run db = .ok (r, db')) :
    (nonce ≤ counter db d s ∧ db' = db) ∨
      (counter db d s < nonce ∧ upsertNonce d s nonce db = .ok ((), db')) := by
  obtain ⟨stored, _, hread, h₁⟩ := Block.run_bind_eq_ok h
  rw [Block.run_stmt] at hread
  obtain ⟨n, hn, heq⟩ := map_eq_ok.mp hread
  cases heq
  obtain rfl := current_eq_ok hn
  split at h₁
  · rename_i hle
    cases h₁
    exact Or.inl ⟨hle, rfl⟩
  · rename_i hlt
    obtain ⟨_, _, hins, h₂⟩ := Block.run_bind_eq_ok h₁
    rw [Block.run_stmt] at hins
    cases h₂
    exact Or.inr ⟨Int.not_le.mp hlt, hins⟩

/-- **One call is one operation on the counter of its pair**, and touches no other row. A reservation
returns where the counter went. -/
theorem NonceCall.run_spec {call : NonceCall} {b : Block Database Exc Int} {db db' : Database}
    {n : Int} (hb : call.prog = .ok b) (h : b.run db = .ok (n, db')) (d s : PyStr) :
    (call.op? d s = none → nonceRow? db' d s = nonceRow? db d s) ∧
    (∀ op, call.op? d s = some op → counter db' d s = Counter.step (counter db d s) op) ∧
    (∀ floor, call = .reserve d s floor → n = max (counter db d s) floor + 1) := by
  cases call with
  | reserve agentDid scope floor =>
    simp only [prog] at hb
    have hblock : b = (reserveBlock agentDid scope floor).bind fun r => .ret r.nonce := by
      split at hb
      · rename_i b' hb'
        cases hb
        rw [reserve_eq_ok hb']
      · cases hb
    subst hblock
    obtain ⟨r, _, hrun, hret⟩ := Block.run_bind_eq_ok h
    cases hret
    obtain ⟨rfl, hins⟩ := reserveBlock_run hrun
    obtain ⟨-, hrow⟩ := upsertNonce_eq_ok hins
    refine ⟨fun hop => ?_, fun op hop => ?_, ?_⟩
    · simp only [op?, ite_eq_right_iff, reduceCtorEq, imp_false] at hop
      rw [hrow, if_neg fun hp => hop ⟨hp.1.symm, hp.2.symm⟩]
    · simp only [op?] at hop
      split at hop
      · rename_i hp
        obtain ⟨rfl, rfl⟩ := hp
        cases hop
        rw [counter, hrow, if_pos ⟨rfl, rfl⟩]
        rfl
      · cases hop
    · rintro floor' heq
      cases heq
      rfl
  | observe agentDid scope nonce =>
    simp only [prog, Identity.observe] at hb
    split at hb
    · rename_i k hk
      cases hb
      obtain ⟨m, rfl, rfl, -⟩ := validateNonce_eq_ok.mp hk
      have hop : ∀ op, NonceCall.op? d s (.observe agentDid scope (.int m)) = some op →
          agentDid = d ∧ scope = s ∧ op = .raise m := by
        intro op hop
        simp only [op?] at hop
        split at hop
        · rename_i hp
          cases hop
          exact ⟨hp.1, hp.2, rfl⟩
        · cases hop
      refine ⟨fun hnone => ?_, fun op hsome => ?_, nofun⟩
      · rcases observeBlock_run h with ⟨-, rfl⟩ | ⟨-, hins⟩
        · rfl
        · simp only [op?, ite_eq_right_iff, reduceCtorEq, imp_false] at hnone
          rw [(upsertNonce_eq_ok hins).2, if_neg fun hp => hnone ⟨hp.1.symm, hp.2.symm⟩]
      · obtain ⟨rfl, rfl, rfl⟩ := hop op hsome
        rcases observeBlock_run h with ⟨hle, rfl⟩ | ⟨hlt, hins⟩
        · simp only [Counter.step]
          omega
        · rw [counter, (upsertNonce_eq_ok hins).2, if_pos ⟨rfl, rfl⟩]
          simp only [Counter.step, Option.getD_some]
          omega
    · cases hb

/-! ## Every run -/

omit [PyRuntime] in
/-- The counter operations of a log on one pair. -/
def opsOn (d s : PyStr) (log : List (NonceCall × Int)) : List Counter.Op :=
  log.filterMap fun e => e.1.op? d s

omit [PyRuntime] in
/-- The nonce a log entry issues on a pair. -/
def issuedBy? (d s : PyStr) : NonceCall × Int → Option Int
  | (.reserve agentDid scope _, n) => if agentDid = d ∧ scope = s then some n else none
  | (.observe .., _) => none

omit [PyRuntime] in
/-- The nonces a log issues on one pair, in commit order. -/
def issuedOn (d s : PyStr) (log : List (NonceCall × Int)) : List Int := log.filterMap (issuedBy? d s)

omit [PyRuntime] in
theorem opsOn_concat (d s : PyStr) (log : List (NonceCall × Int)) (e : NonceCall × Int) :
    opsOn d s (log ++ [e]) = opsOn d s log ++ (e.1.op? d s).toList := by
  cases h : e.1.op? d s <;> simp [opsOn, h]

omit [PyRuntime] in
theorem issuedOn_concat (d s : PyStr) (log : List (NonceCall × Int)) (e : NonceCall × Int) :
    issuedOn d s (log ++ [e]) = issuedOn d s log ++ (issuedBy? d s e).toList := by
  cases h : issuedBy? d s e <;> simp [issuedOn, h]

omit [PyRuntime] in
/-- An entry of a log is about another pair, or a reservation, or an observation. -/
theorem op?_issuedBy? (d s : PyStr) (e : NonceCall × Int) :
    (e.1.op? d s = none ∧ issuedBy? d s e = none) ∨
    (∃ floor n, e = (.reserve d s floor, n)) ∨
    (∃ nonce n, e = (.observe d s nonce, n)) := by
  obtain ⟨call, n⟩ := e
  cases call with
  | reserve agentDid scope floor =>
    by_cases h : agentDid = d ∧ scope = s
    · obtain ⟨rfl, rfl⟩ := h
      exact Or.inr (Or.inl ⟨floor, n, rfl⟩)
    · exact Or.inl ⟨if_neg h, if_neg h⟩
  | observe agentDid scope nonce =>
    by_cases h : agentDid = d ∧ scope = s
    · obtain ⟨rfl, rfl⟩ := h
      exact Or.inr (Or.inr ⟨nonce, n, rfl⟩)
    · exact Or.inl ⟨if_neg h, rfl⟩

/-- **The table holds the counters of the log.** From any table, a serial execution of calls moves the
counter of each pair by the operations of its calls, and issues what the counter issues. -/
theorem serial_counter {db₀ db : Database} {log : List (NonceCall × Int)}
    (h : Serial NonceCall.prog db₀ log db) (d s : PyStr) :
    counter db d s = Counter.final (counter db₀ d s) (opsOn d s log) ∧
      issuedOn d s log = Counter.issued (counter db₀ d s) (opsOn d s log) ∧
      (opsOn d s log = [] → nonceRow? db d s = nonceRow? db₀ d s) := by
  induction h with
  | nil => exact ⟨rfl, rfl, fun _ => rfl⟩
  | @snoc log db call b n db' _ hb hrun ih =>
    obtain ⟨hcounter, hissued, hrow⟩ := ih
    obtain ⟨hnone, hsome, hreserve⟩ := NonceCall.run_spec hb hrun d s
    rw [opsOn_concat, issuedOn_concat]
    rcases op?_issuedBy? d s (call, n) with ⟨hop, his⟩ | ⟨floor, m, heq⟩ | ⟨nonce, m, heq⟩
    · rw [hop, his, Option.toList_none, Option.toList_none, List.append_nil, List.append_nil]
      refine ⟨?_, hissued, fun h0 => (hnone hop).trans (hrow h0)⟩
      rw [counter, hnone hop, ← counter, hcounter]
    · cases heq
      have hop : NonceCall.op? d s (.reserve d s floor) = some (.issue floor) := if_pos ⟨rfl, rfl⟩
      have his : issuedBy? d s (.reserve d s floor, n) = some n := if_pos ⟨rfl, rfl⟩
      have hn : n = max (counter db d s) floor + 1 := hreserve floor rfl
      rw [hop, his, Option.toList_some, Option.toList_some, Counter.final_append,
        Counter.issued_append, hissued, ← hcounter, hn]
      exact ⟨hsome _ hop, rfl, by simp⟩
    · cases heq
      have hop : NonceCall.op? d s (.observe d s nonce) = some (.raise nonce.toInt) :=
        if_pos ⟨rfl, rfl⟩
      have his : issuedBy? d s (.observe d s nonce, n) = none := rfl
      rw [hop, his, Option.toList_some, Option.toList_none, List.append_nil, Counter.final_append,
        Counter.issued_append, hissued, ← hcounter]
      exact ⟨hsome _ hop, (List.append_nil _).symm, by simp⟩

variable {Conn : Type} [DecidableEq Conn]

/-- **Nonce issuance.** From an empty `nonces` table, after any interleaving of the statements of any
number of reservations and observations, each of them refused, failing, rolled back or committed at any
point: the nonces issued on a pair increase strictly in commit order; each exceeds its own floor and
everything issued on the pair or observed of it before; from there on the counter of a pair never
decreases, and its row changes only through calls on the pair; no step of a call that does not return
changes anything; and a pair that saw nothing but reservations with floor 0 was issued 1, 2, 3, … -/
theorem nonces_issued {activities : List ActivityRow} {evs : List (Event Conn Exc Int NonceCall)}
    {m : Machine Conn Database Exc Int NonceCall}
    (h : Run NonceCall.prog (Machine.start { activities, nonces := [] }) evs m) :
    let log := returns evs
    (∀ d s, (issuedOn d s log).Pairwise (· < ·)) ∧
    (∀ before after d s floor n, log = before ++ (.reserve d s floor, n) :: after →
      floor < n ∧ (∀ n' ∈ issuedOn d s before, n' < n) ∧
        ∀ nonce r, (.observe d s nonce, r) ∈ before → nonce.toInt < n) ∧
    (∀ evs' m', Run NonceCall.prog m evs' m' → ∀ d s,
      counter m.store d s ≤ counter m'.store d s ∧
        ((∀ e ∈ returns evs', e.1.op? d s = none) →
          nonceRow? m'.store d s = nonceRow? m.store d s)) ∧
    (∀ ev m', Step NonceCall.prog m ev m' → ev.returned? = none → m'.store = m.store) ∧
    (∀ d s, (∀ e ∈ log, e.1.op? d s = none ∨ e.1 = .reserve d s 0) →
      issuedOn d s log = (List.range (issuedOn d s log).length).map fun i : Nat => (i : Int) + 1) := by
  intro log
  have hserial := h.serial
  have hzero : ∀ d s, counter ({ activities, nonces := [] } : Database) d s = 0 := fun _ _ => rfl
  have hissued : ∀ d s, issuedOn d s log = Counter.issued 0 (opsOn d s log) := fun d s => by
    rw [← hzero d s]
    exact (serial_counter hserial d s).2.1
  refine ⟨fun d s => ?_, ?_, ?_, fun ev m' hstep hev => hstep.store_eq hev, ?_⟩
  · rw [hissued]
    exact Counter.issued_pairwise 0 _
  · intro before after d s floor n hlog
    rw [show returns evs = before ++ (.reserve d s floor, n) :: after from hlog,
      List.append_cons] at hserial
    -- what was issued up to this call, and before it
    obtain ⟨db, hupto, -⟩ := hserial.of_append
    obtain ⟨db', hbefore, -⟩ := hupto.of_append
    obtain ⟨-, hiss, -⟩ := serial_counter hupto d s
    obtain ⟨-, hissb, -⟩ := serial_counter hbefore d s
    have hop : NonceCall.op? d s (.reserve d s floor) = some (.issue floor) := if_pos ⟨rfl, rfl⟩
    have his : issuedBy? d s (.reserve d s floor, n) = some n := if_pos ⟨rfl, rfl⟩
    rw [hzero] at hiss hissb
    rw [opsOn_concat, issuedOn_concat, hop, his, Counter.issued_append, ← hissb] at hiss
    have hn : n = max (Counter.final 0 (opsOn d s before)) floor + 1 :=
      (List.cons.inj (List.append_cancel_left hiss)).1
    refine ⟨by omega, fun n' hn' => ?_, fun nonce r hobs => ?_⟩
    · rw [hissb] at hn'
      have hle := (Counter.mem_issued hn').2
      omega
    · have hraise : Counter.Op.raise nonce.toInt ∈ opsOn d s before :=
        List.mem_filterMap.mpr ⟨_, hobs, if_pos ⟨rfl, rfl⟩⟩
      have hle := Counter.le_final_of_raise (c := 0) hraise
      omega
  · intro evs' m' hrun d s
    obtain ⟨hcounter, -, hrow⟩ := serial_counter
      (hrun.coherent_serial (h.coherent_serial (Coherent.start _ _)).1).2 d s
    refine ⟨?_, fun hnone => hrow (List.filterMap_eq_nil_iff.mpr hnone)⟩
    rw [hcounter]
    exact Counter.le_final _ _
  · intro d s hall
    have hops : opsOn d s log = List.replicate (opsOn d s log).length (.issue 0) := by
      refine List.eq_replicate_length.mpr fun op hop => ?_
      obtain ⟨e, he, heq⟩ := List.mem_filterMap.mp hop
      rcases hall e he with hnone | hres
      · rw [hnone] at heq
        cases heq
      · rw [hres] at heq
        exact (Option.some.inj (heq.symm.trans (if_pos ⟨rfl, rfl⟩)))
    have hmap := Counter.issued_replicate 0 (opsOn d s log).length (Int.le_refl 0)
    rw [← hops, ← hissued] at hmap
    rw [hmap, List.length_map, List.length_range]
    exact List.map_congr_left fun i _ => by omega

end Calls

section Lobby

attribute [local instance] asciiRuntime

/-- Two reservations with an observation between them. -/
def lobbyLog : List (NonceCall × Int) :=
  [(.reserve (py "did:key:z") (py "lobby") 0, 1), (.observe (py "did:key:z") (py "lobby") (.int 5), 5),
   (.reserve (py "did:key:z") (py "lobby") 2, 6)]

theorem nonces_issued_lobby :
    ∃ evs m, Run NonceCall.prog (Machine.start ⟨[], []⟩ : Machine Unit _ _ _ _) evs m ∧
      returns evs = lobbyLog ∧
      (issuedOn (py "did:key:z") (py "lobby") lobbyLog).Pairwise (· < ·) ∧ (2 : Int) < 6 := by
  have hserial : Serial NonceCall.prog ⟨[], []⟩ lobbyLog
      ⟨[], [⟨py "did:key:z", py "lobby", 6⟩]⟩ :=
    .snoc (.snoc (.snoc .nil rfl rfl) rfl rfl) rfl rfl
  obtain ⟨evs, hrun, hlog⟩ := hserial.run ()
  obtain ⟨hincreasing, hfloor, -⟩ := nonces_issued hrun
  refine ⟨evs, _, hrun, hlog, ?_, ?_⟩
  · rw [← hlog]
    exact hincreasing _ _
  · exact (hfloor (lobbyLog.take 2) [] _ _ _ _ hlog).1

end Lobby

end FlopOffice.Identity
