/-
# FlopOffice.Storage.Immediate — `immediate`, and what it does when the database reports errors.

A `Session` is one connection: the committed state, and the working copy of its open transaction if it
has one. `Faults` says which statements report an error of their own, and what the error has done to the
transaction: SQLite ends it for some errors of a statement, and may leave it open after an error of
`COMMIT`.

`immediate` answers an exception of its block with `ROLLBACK`. It has no answer to an error of `COMMIT`,
which is outside its `try`, and its `ROLLBACK` raises in its turn where no transaction is left. These are
the only exits on which it is not all or nothing (`immediate_all_or_nothing_iff`), and on every exit it is
a run of the transaction machine (`immediate_run`).
-/
import FlopOffice.Lib.Transaction
import FlopOffice.Storage.Db

namespace FlopOffice.Storage

open FlopOffice.Lib FlopOffice.Python

variable {σ ε α : Type}

/-! ## Connections -/

/-- One connection: what is committed, and the working copy of its open transaction. -/
structure Session (σ : Type) where
  store : σ
  tx : Option σ

/-- What an error leaves of the transaction it was reported in. -/
inductive TxState
  | stillOpen | ended
  deriving DecidableEq

/-- The errors the database reports: at `BEGIN`, at the n-th statement of the block, at `COMMIT`. -/
structure Faults (ε : Type) where
  begin : Option ε
  statement : Nat → Option (ε × TxState)
  commit : Option (ε × TxState)

/-- What leaves `immediate`: an exception that was reported to it, the refusal of a second `BEGIN`, or
the refusal of a `ROLLBACK` without a transaction, raised while `context` was handled. -/
inductive Failure (ε : Type)
  | raised (e : ε)
  | nestedBegin
  | noTransaction (context : ε)

/-- `conn.execute("BEGIN IMMEDIATE")`. -/
def Session.begin (s : Session σ) (fault : Option ε) : Except (Failure ε) (Session σ) :=
  match fault, s.tx with
  | some e, _ => .error (.raised e)
  | none, some _ => .error .nestedBegin
  | none, none => .ok { s with tx := some s.store }

/-- One statement: on the working copy, or committed by itself where there is none. -/
def Session.execute {β : Type} (s : Session σ) (f : σ → Except ε (β × σ)) :
    Except ε (β × Session σ) :=
  match s.tx with
  | some w => (f w).map fun r => (r.1, { s with tx := some r.2 })
  | none => (f s.store).map fun r => (r.1, { s with store := r.2 })

/-- The body of the `with` statement, from its n-th statement on. -/
def executeBlock (faults : Nat → Option (ε × TxState)) :
    Block σ ε α → Nat → Session σ → Except ε α × Session σ
  | .ret a, _, s => (.ok a, s)
  | .throw e, _, s => (.error e, s)
  | .exec f next, n, s =>
    match faults n with
    | some (e, .ended) => (.error e, { s with tx := none })
    | some (e, .stillOpen) => (.error e, s)
    | none =>
      match s.execute f with
      | .ok (b, s') => executeBlock faults (next b) (n + 1) s'
      | .error e => (.error e, s)

/-- `conn.execute("ROLLBACK")`, while `e` is handled, and `raise`. -/
def Session.rollback (s : Session σ) (e : ε) : Failure ε × Session σ :=
  match s.tx with
  | some _ => (.raised e, { s with tx := none })
  | none => (.noTransaction e, s)

/-- `conn.execute("COMMIT")`. -/
def Session.commit (s : Session σ) (fault : Option (ε × TxState)) : Option ε × Session σ :=
  match fault with
  | some (e, .stillOpen) => (some e, s)
  | some (e, .ended) => (some e, { s with tx := none })
  | none => (none, ⟨s.tx.getD s.store, none⟩)

/-- Run a block inside a `BEGIN IMMEDIATE` transaction. -/
def immediate (faults : Faults ε) (block : Block σ ε α) (s : Session σ) :
    Except (Failure ε) α × Session σ :=
  match s.begin faults.begin with
  | .error failure => (.error failure, s)
  | .ok s =>
    match executeBlock faults.statement block 0 s with
    | (.error e, s) =>
      let (failure, s) := s.rollback e
      (.error failure, s)
    | (.ok a, s) =>
      match s.commit faults.commit with
      | (some e, s) => (.error (.raised e), s)
      | (none, s) => (.ok a, s)

/-! ## What the statements report -/

/-- The block on a working copy, up to the first error and what that has done to the transaction. -/
def report (faults : Nat → Option (ε × TxState)) :
    Block σ ε α → Nat → σ → Except (ε × TxState) (α × σ)
  | .ret a, _, w => .ok (a, w)
  | .throw e, _, _ => .error (e, .stillOpen)
  | .exec f next, n, w =>
    match faults n with
    | some fault => .error fault
    | none =>
      match f w with
      | .ok (b, w') => report faults (next b) (n + 1) w'
      | .error e => .error (e, .stillOpen)

/-- The first error that is reported to a call. -/
def firstError (faults : Faults ε) (block : Block σ ε α) (st : σ) : Option ε :=
  match faults.begin with
  | some e => some e
  | none =>
    match report faults.statement block 0 st with
    | .error (e, _) => some e
    | .ok _ => faults.commit.map Prod.fst

/-- Where no error is reported the block has run. -/
theorem run_of_report {faults : Nat → Option (ε × TxState)} {block : Block σ ε α} {n : Nat} {w w' : σ}
    {a : α} (h : report faults block n w = .ok (a, w')) : block.run w = .ok (a, w') := by
  induction block generalizing n w with
  | ret a' =>
    cases h
    rfl
  | throw e => cases h
  | exec f next ih =>
    unfold report at h
    split at h
    · cases h
    · split at h
      · rename_i b w₁ hf
        have hrun := ih b h
        simpa only [Block.run, hf] using hrun
      · cases h

/-- The body returns in its transaction. -/
theorem executeBlock_of_report_ok {faults : Nat → Option (ε × TxState)} {block : Block σ ε α} {n : Nat}
    {st w w' : σ} {a : α} (h : report faults block n w = .ok (a, w')) :
    executeBlock faults block n ⟨st, some w⟩ = (.ok a, ⟨st, some w'⟩) := by
  induction block generalizing n w with
  | ret a' =>
    cases h
    rfl
  | throw e => cases h
  | exec f next ih =>
    unfold report at h
    unfold executeBlock
    split at h
    · cases h
    · rename_i hfault
      split at h
      · rename_i b w₁ hf
        simp only [hfault, Session.execute, hf, Except.map]
        exact ih b h
      · cases h

/-- The body raises: in its transaction, or where that has ended. -/
theorem executeBlock_of_report_error {faults : Nat → Option (ε × TxState)} {block : Block σ ε α} {n : Nat}
    {st w : σ} {e : ε} {t : TxState} (h : report faults block n w = .error (e, t)) :
    ∃ tx, executeBlock faults block n ⟨st, some w⟩ = (.error e, ⟨st, tx⟩) ∧
      (tx = none ↔ t = .ended) := by
  induction block generalizing n w with
  | ret a => cases h
  | throw e' =>
    cases h
    exact ⟨some w, rfl, iff_of_false nofun nofun⟩
  | exec f next ih =>
    unfold report at h
    unfold executeBlock
    split at h
    · rename_i fault hfault
      cases h
      cases t with
      | ended => exact ⟨none, by simp only [hfault], iff_of_true rfl rfl⟩
      | stillOpen => exact ⟨some w, by simp only [hfault], iff_of_false nofun nofun⟩
    · rename_i hfault
      split at h
      · rename_i b w₁ hf
        simp only [hfault, Session.execute, hf, Except.map]
        exact ih b h
      · rename_i e' hf
        cases h
        refine ⟨some w, ?_, iff_of_false nofun nofun⟩
        simp only [hfault, Session.execute, hf, Except.map]

/-! ## All or nothing -/

/-- A call on a connection without a transaction leaves it without one, and either returns with all of
the block's writes committed, or raises the first error that was reported to it, with none of them. -/
def AllOrNothing (faults : Faults ε) (block : Block σ ε α) (st : σ) : Prop :=
  let out := immediate faults block ⟨st, none⟩
  out.2.tx = none ∧
    ((∃ a, out.1 = .ok a ∧ block.run st = .ok (a, out.2.store)) ∨
      ∃ e, out.1 = .error (.raised e) ∧ firstError faults block st = some e ∧ out.2.store = st)

/-- **When `immediate` is all or nothing**: exactly if no error of a statement has ended the transaction
under it, and no error of `COMMIT` has left it open. -/
theorem immediate_all_or_nothing_iff (faults : Faults ε) (block : Block σ ε α) (st : σ) :
    AllOrNothing faults block st ↔ (faults.begin = none →
      (∀ e t, report faults.statement block 0 st = .error (e, t) → t = .stillOpen) ∧
      ∀ r e t, report faults.statement block 0 st = .ok r → faults.commit = some (e, t) → t = .ended) := by
  unfold AllOrNothing immediate firstError
  cases hbegin : faults.begin with
  | some e => exact iff_of_true ⟨rfl, Or.inr ⟨e, rfl, rfl, rfl⟩⟩ nofun
  | none =>
    simp only [Session.begin, forall_const]
    cases hreport : report faults.statement block 0 st with
    | error fault =>
      obtain ⟨e, t⟩ := fault
      obtain ⟨tx, hexec, htx⟩ : ∃ tx, executeBlock faults.statement block 0 ⟨st, some st⟩ =
          (.error e, ⟨st, tx⟩) ∧ (tx = none ↔ t = .ended) := executeBlock_of_report_error hreport
      rw [hexec]
      cases tx with
      | none =>
        -- `ROLLBACK` has nothing to roll back
        refine iff_of_false ?_ fun h => ?_
        · rintro ⟨-, ⟨a, ha, -⟩ | ⟨e', he', -⟩⟩
          · cases ha
          · cases he'
        · have hopen := h.1 e t rfl
          rw [htx.mp rfl] at hopen
          cases hopen
      | some w =>
        have hopen : t = .stillOpen := by
          cases t with
          | stillOpen => rfl
          | ended => cases htx.mpr rfl
        refine iff_of_true ⟨rfl, Or.inr ⟨e, rfl, rfl, rfl⟩⟩ ⟨fun e' t' h => ?_, nofun⟩
        cases h
        exact hopen
    | ok r =>
      obtain ⟨a, w⟩ := r
      rw [executeBlock_of_report_ok hreport]
      cases hcommit : faults.commit with
      | none =>
        exact iff_of_true ⟨rfl, Or.inl ⟨a, rfl, run_of_report hreport⟩⟩ ⟨nofun, nofun⟩
      | some fault =>
        obtain ⟨e, t⟩ := fault
        cases t with
        | ended =>
          refine iff_of_true ⟨rfl, Or.inr ⟨e, rfl, rfl, rfl⟩⟩ ⟨nofun, fun _ e' t' _ h => ?_⟩
          cases h
          rfl
        | stillOpen =>
          refine iff_of_false (fun h => nomatch h.1) fun h => ?_
          cases h.2 (a, w) e .stillOpen rfl rfl

/-- On a connection whose transaction was left open no call begins, and the transaction stays. -/
theorem immediate_of_open {faults : Faults ε} (hbegin : faults.begin = none) (block : Block σ ε α)
    (st w : σ) : immediate faults block ⟨st, some w⟩ = (.error .nestedBegin, ⟨st, some w⟩) := by
  unfold immediate
  rw [hbegin]
  rfl

/-! ## The machine -/

section Machine

variable {Conn κ : Type} [DecidableEq Conn]

/-- **Every call is a run of the transaction machine**: it ends idle, or stuck where its transaction is
left open, with the same committed state, and it has returned there exactly if it returns here. -/
theorem immediate_run (prog : κ → Except ε (Block σ ε α)) {k : κ} {block : Block σ ε α}
    (hk : prog k = .ok block) (faults : Faults ε) (m : Machine Conn σ ε α κ)
    (hidle : ∀ d, m.phase d = .idle) (c : Conn) :
    ∃ evs p, Run prog m evs
        ({ m with store := (immediate faults block ⟨m.store, none⟩).2.store }.setPhase c p) ∧
      (((immediate faults block ⟨m.store, none⟩).2.tx = none ∧ p = .idle) ∨
        ((immediate faults block ⟨m.store, none⟩).2.tx ≠ none ∧ p = .stuck)) ∧
      ∀ a, (immediate faults block ⟨m.store, none⟩).1 = .ok a ↔ returns evs = [(k, a)] := by
  have hsame : ∀ s, { m with store := s }.setPhase c .idle = { m with store := s } := by
    intro s
    have hupdate : Function.update m.phase c .idle = m.phase := by
      rw [← hidle c, Function.update_eq_self]
    simp only [Machine.setPhase, hupdate]
  have hphase : ∀ p, (m.setPhase c p).phase c = p := fun p => by
    rw [Machine.setPhase_phase, Function.update_self]
  have hset : ∀ s p q, { m.setPhase c p with store := s }.setPhase c q =
      { m with store := s }.setPhase c q := fun s p q => by
    simp only [Machine.setPhase, Function.update_idem]
  have hbegun : Run prog m [.began c k] (m.setPhase c (.running k m.store block)) :=
    Run.snoc .nil (Step.begin hidle hk)
  unfold immediate
  cases hbegin : faults.begin with
  | some e =>
    refine ⟨[.raised c k e], .idle, ?_, Or.inl ⟨rfl, rfl⟩, fun a => iff_of_false (fun h => by cases h)
      (List.cons_ne_nil _ _).symm⟩
    rw [hsame]
    exact Run.snoc .nil .busy
  | none =>
    simp only [Session.begin]
    cases hreport : report faults.statement block 0 m.store with
    | error fault =>
      obtain ⟨e, t⟩ := fault
      obtain ⟨tx, hexec, -⟩ : ∃ tx, executeBlock faults.statement block 0 ⟨m.store, some m.store⟩ =
          (.error e, ⟨m.store, tx⟩) ∧ (tx = none ↔ t = .ended) := executeBlock_of_report_error hreport
      have hrun : Run prog m ([.began c k] ++ [.raised c k e])
          ({ m with store := m.store }.setPhase c .idle) := by
        rw [← hset m.store (.running k m.store block) .idle]
        exact hbegun.snoc (Step.rollback (hphase _))
      rw [hexec]
      refine ⟨[.began c k] ++ [.raised c k e], .idle, ?_, Or.inl ⟨?_, rfl⟩,
        fun a => iff_of_false ?_ ?_⟩
      · cases tx <;> exact hrun
      · cases tx <;> rfl
      · intro h
        cases tx <;> cases h
      · exact (List.cons_ne_nil _ _).symm
    | ok r =>
      obtain ⟨a, w⟩ := r
      rw [executeBlock_of_report_ok hreport]
      obtain ⟨evs, hevs, hret⟩ : ∃ evs, Run prog (m.setPhase c (.running k m.store block)) evs
          (m.setPhase c (.running k w (.ret a))) ∧ returns evs = [] :=
        Run.of_block (run_of_report hreport) m
      have hran := hbegun.trans hevs
      cases hcommit : faults.commit with
      | none =>
        refine ⟨[.began c k] ++ evs ++ [.returned c k a], .idle, ?_, Or.inl ⟨rfl, rfl⟩, fun a' => ?_⟩
        · show Run prog m _ ({ m with store := w }.setPhase c .idle)
          rw [← hset w (.running k w (.ret a)) .idle]
          exact hran.snoc (Step.commit (hphase _))
        · rw [returns_append, returns_append, hret]
          show Except.ok a = Except.ok a' ↔ [(k, a)] = [(k, a')]
          simp
      | some fault =>
        obtain ⟨e, t⟩ := fault
        have hnone : ∀ a', returns ([.began c k] ++ evs ++ [.raised c k e]) ≠ [(k, a')] := by
          intro a'
          rw [returns_append, returns_append, hret]
          exact (List.cons_ne_nil _ _).symm
        cases t with
        | ended =>
          refine ⟨[.began c k] ++ evs ++ [.raised c k e], .idle, ?_, Or.inl ⟨rfl, rfl⟩,
            fun a' => iff_of_false (fun h => by cases h) (hnone a')⟩
          show Run prog m _ ({ m with store := m.store }.setPhase c .idle)
          rw [← hset m.store (.running k w (.ret a)) .idle]
          exact hran.snoc (Step.rollback (hphase _))
        | stillOpen =>
          refine ⟨[.began c k] ++ evs ++ [.raised c k e], .stuck, ?_, Or.inr ⟨Option.some_ne_none _, rfl⟩,
            fun a' => iff_of_false (fun h => by cases h) (hnone a')⟩
          show Run prog m _ ({ m with store := m.store }.setPhase c .stuck)
          rw [← hset m.store (.running k w (.ret a)) .stuck]
          exact hran.snoc (Step.commitFails (hphase _))

end Machine

/-- **A transaction that stays open**: one insert, and an error of `COMMIT`. -/
theorem commit_error_leaves_open : ¬ ∀ (faults : Faults Exc) (block : Block Database Exc Unit) st,
    AllOrNothing faults block st := by
  intro hall
  let faults : Faults Exc := ⟨none, fun _ => none, some (⟨.databaseError, []⟩, .stillOpen)⟩
  obtain ⟨hclosed, -⟩ := hall faults
    (.stmt (upsertNonce (py "did:key:z") (py "lobby") 1)) ⟨[], []⟩
  cases hclosed

end FlopOffice.Storage
