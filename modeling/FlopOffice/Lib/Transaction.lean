/-
# FlopOffice.Lib.Transaction — exclusive write transactions, and why they serialise.

A `Block` is the body of one transaction: statements against a state `σ`, each of which may fail,
with arbitrary computation between them. The `Machine` runs any number of connections, each executing
one block at a time STATEMENT BY STATEMENT on a private working copy, under one rule of the database:
a transaction can begin only while no other connection holds one. Everything else may happen at any
point, in any order: a call refused before it begins, a statement that fails, a rollback between two
statements, a commit that fails and leaves its transaction open until the connection is closed.

The result (`Run.serial`) is that the committed state is exactly what the calls that RETURNED give
when they run one after another in commit order, each alone and without interruption. Invariants and
facts about logs of calls are then inductions over `Serial`, with no interleaving left in them.
-/
import Mathlib.Data.List.Basic
import Mathlib.Data.List.Induction
import Mathlib.Logic.Function.Basic
import Mathlib.Tactic.Common

namespace FlopOffice.Lib

/-! ## §1 Blocks -/

/-- The body of a transaction over the state `σ`, raising `ε` or returning `α`. -/
inductive Block (σ ε α : Type) : Type 1 where
  | ret (a : α)
  | throw (e : ε)
  | exec {β : Type} (stmt : σ → Except ε (β × σ)) (next : β → Block σ ε α)

namespace Block

variable {σ ε α β : Type}

/-- Run `f` on what a block returns, inside the same transaction. -/
def bind : Block σ ε α → (α → Block σ ε β) → Block σ ε β
  | ret a, f => f a
  | throw e, _ => throw e
  | exec stmt next, f => exec stmt fun b => (next b).bind f

instance : Monad (Block σ ε) where
  pure := ret
  bind := bind

/-- One statement. -/
def stmt (f : σ → Except ε (α × σ)) : Block σ ε α := exec f ret

/-- A computation that does not touch the state. -/
def lift : Except ε α → Block σ ε α
  | .ok a => ret a
  | .error e => throw e

/-- The effect of a block that runs alone: nothing but the error is left of a block that raises. -/
def run : Block σ ε α → σ → Except ε (α × σ)
  | ret a, s => .ok (a, s)
  | throw e, _ => .error e
  | exec f next, s =>
    match f s with
    | .ok (b, s') => (next b).run s'
    | .error e => .error e

@[simp] theorem run_pure (a : α) (s : σ) : (pure a : Block σ ε α).run s = .ok (a, s) := rfl

@[simp] theorem run_throw (e : ε) (s : σ) : (throw e : Block σ ε α).run s = .error e := rfl

@[simp] theorem run_stmt (f : σ → Except ε (α × σ)) (s : σ) : (stmt f).run s = f s := by
  simp only [stmt, run]
  cases f s <;> rfl

theorem run_lift (x : Except ε α) (s : σ) : (lift x : Block σ ε α).run s = x.map fun a => (a, s) := by
  cases x <;> rfl

theorem run_bind' (x : Block σ ε α) (f : α → Block σ ε β) (s : σ) :
    (x.bind f).run s = match x.run s with
      | .ok (a, s') => (f a).run s'
      | .error e => .error e := by
  induction x generalizing s with
  | ret a => rfl
  | throw e => rfl
  | exec g next ih =>
    simp only [bind, run]
    cases g s with
    | error e => rfl
    | ok r => exact ih r.1 r.2

@[simp] theorem run_bind (x : Block σ ε α) (f : α → Block σ ε β) (s : σ) :
    (x >>= f).run s = match x.run s with
      | .ok (a, s') => (f a).run s'
      | .error e => .error e :=
  run_bind' x f s

/-- What a block that returns did: its first part returned, and its second part did from there. -/
theorem run_bind_eq_ok {x : Block σ ε α} {f : α → Block σ ε β} {s s'' : σ} {b : β}
    (h : (x >>= f).run s = .ok (b, s'')) :
    ∃ a s', x.run s = .ok (a, s') ∧ (f a).run s' = .ok (b, s'') := by
  rw [run_bind] at h
  cases hx : x.run s with
  | error e => rw [hx] at h; cases h
  | ok r => rw [hx] at h; exact ⟨r.1, r.2, rfl, h⟩

end Block

/-! ## §2 The machine -/

section Machine

variable {Conn σ ε α κ : Type}

/-- What a connection is doing. A `stuck` connection holds a transaction that can only be rolled
back, by closing the connection. -/
inductive Phase (σ ε α κ : Type) : Type 1 where
  | idle
  | running (call : κ) (work : σ) (rest : Block σ ε α)
  | stuck

/-- The committed state, and the phase of every connection. -/
structure Machine (Conn σ ε α κ : Type) : Type 1 where
  store : σ
  phase : Conn → Phase σ ε α κ

/-- What an observer of the connections sees. -/
inductive Event (Conn ε α κ : Type) where
  | began (c : Conn) (k : κ)
  | executed (c : Conn)
  | raised (c : Conn) (k : κ) (e : ε)
  | returned (c : Conn) (k : κ) (a : α)
  | closed (c : Conn)

variable [DecidableEq Conn]

/-- Put connection `c` into phase `p`. -/
def Machine.setPhase (m : Machine Conn σ ε α κ) (c : Conn) (p : Phase σ ε α κ) :
    Machine Conn σ ε α κ :=
  { m with phase := Function.update m.phase c p }

@[simp] theorem Machine.setPhase_store (m : Machine Conn σ ε α κ) (c : Conn)
    (p : Phase σ ε α κ) : (m.setPhase c p).store = m.store := rfl

@[simp] theorem Machine.setPhase_phase (m : Machine Conn σ ε α κ) (c : Conn)
    (p : Phase σ ε α κ) : (m.setPhase c p).phase = Function.update m.phase c p := rfl

/-- One step of one connection. `prog k` is what call `k` does: raise before its transaction begins,
or run a block inside one. -/
inductive Step (prog : κ → Except ε (Block σ ε α)) :
    Machine Conn σ ε α κ → Event Conn ε α κ → Machine Conn σ ε α κ → Prop
  /-- The call raises before `BEGIN`. -/
  | refuse {m c k e} : m.phase c = .idle → prog k = .error e → Step prog m (.raised c k e) m
  /-- `BEGIN` itself fails: another writer held the lock for too long. -/
  | busy {m c k e} : Step prog m (.raised c k e) m
  /-- `BEGIN`: only while no connection is inside a transaction. -/
  | begin {m c k b} : (∀ d, m.phase d = .idle) → prog k = .ok b →
      Step prog m (.began c k) (m.setPhase c (.running k m.store b))
  /-- One statement succeeds, on the working copy. -/
  | exec {m c k w w'} {β : Type} {f : σ → Except ε (β × σ)} {next : β → Block σ ε α} {b} :
      m.phase c = .running k w (.exec f next) → f w = .ok (b, w') →
      Step prog m (.executed c) (m.setPhase c (.running k w' (next b)))
  /-- A statement fails, or the block raises, or the transaction is given up for any other reason:
  `ROLLBACK`. -/
  | rollback {m c k w rest e} : m.phase c = .running k w rest →
      Step prog m (.raised c k e) (m.setPhase c .idle)
  /-- `COMMIT`. -/
  | commit {m c k w a} : m.phase c = .running k w (.ret a) →
      Step prog m (.returned c k a) ({ m with store := w }.setPhase c .idle)
  /-- `COMMIT` fails: the call raises and its transaction stays open. -/
  | commitFails {m c k w a e} : m.phase c = .running k w (.ret a) →
      Step prog m (.raised c k e) (m.setPhase c .stuck)
  /-- A connection is closed; an open transaction is rolled back. -/
  | close {m c} : m.phase c = .stuck → Step prog m (.closed c) (m.setPhase c .idle)

/-- A run, with everything observed on the way, oldest first. -/
inductive Run (prog : κ → Except ε (Block σ ε α)) (m₀ : Machine Conn σ ε α κ) :
    List (Event Conn ε α κ) → Machine Conn σ ε α κ → Prop
  | nil : Run prog m₀ [] m₀
  | snoc {evs m ev m'} : Run prog m₀ evs m → Step prog m ev m' → Run prog m₀ (evs ++ [ev]) m'

/-- All connections idle over the state `s`. -/
def Machine.start (s : σ) : Machine Conn σ ε α κ := ⟨s, fun _ => .idle⟩

/-- The call an event reports as returned, with its value. -/
def Event.returned? : Event Conn ε α κ → Option (κ × α)
  | .returned _ k a => some (k, a)
  | _ => none

/-- The calls that returned, in commit order. -/
def returns (evs : List (Event Conn ε α κ)) : List (κ × α) := evs.filterMap Event.returned?

omit [DecidableEq Conn] in
@[simp] theorem returns_append (evs evs' : List (Event Conn ε α κ)) :
    returns (evs ++ evs') = returns evs ++ returns evs' := by
  simp [returns]

/-! ## §3 Serial executions -/

/-- `Serial prog s log s'`: the calls of `log`, each run alone from where the one before it ended,
lead from `s` to `s'`. -/
inductive Serial (prog : κ → Except ε (Block σ ε α)) (s₀ : σ) : List (κ × α) → σ → Prop
  | nil : Serial prog s₀ [] s₀
  | snoc {log s k b a s'} : Serial prog s₀ log s → prog k = .ok b → b.run s = .ok (a, s') →
      Serial prog s₀ (log ++ [(k, a)]) s'

/-- An invariant of every call is an invariant of every serial execution. -/
theorem Serial.invariant {prog : κ → Except ε (Block σ ε α)} {s₀ s : σ} {log : List (κ × α)}
    (I : σ → Prop) (h₀ : I s₀)
    (hstep : ∀ k b s a s', I s → prog k = .ok b → b.run s = .ok (a, s') → I s')
    (h : Serial prog s₀ log s) : I s := by
  induction h with
  | nil => exact h₀
  | snoc _ hk hrun ih => exact hstep _ _ _ _ _ ih hk hrun

/-- A serial execution can be cut anywhere in its log. -/
theorem Serial.of_append {prog : κ → Except ε (Block σ ε α)} {s₀ s : σ} {log log' : List (κ × α)}
    (h : Serial prog s₀ (log ++ log') s) :
    ∃ t, Serial prog s₀ log t ∧ Serial prog t log' s := by
  induction log' using List.reverseRecOn generalizing s with
  | nil =>
    rw [List.append_nil] at h
    exact ⟨s, h, .nil⟩
  | append_singleton log' e ih =>
    rw [← List.append_assoc] at h
    generalize hl : log ++ log' ++ [e] = l at h
    cases h with
    | nil => exact absurd hl (by simp)
    | snoc hprev hk hrun =>
      obtain ⟨rfl, he⟩ := List.append_inj' hl rfl
      obtain rfl := List.singleton_inj.mp he
      obtain ⟨t, ht, ht'⟩ := ih hprev
      exact ⟨t, ht, ht'.snoc hk hrun⟩

/-- What holds between machine states of a run: at most one connection is inside a transaction, and
what it has left to do, from its working copy, is what its whole call does from the committed state. -/
structure Coherent (prog : κ → Except ε (Block σ ε α)) (m : Machine Conn σ ε α κ) : Prop where
  exclusive : ∀ c d, m.phase c ≠ .idle → m.phase d ≠ .idle → c = d
  pending : ∀ c k w rest, m.phase c = .running k w rest →
    ∃ b, prog k = .ok b ∧ b.run m.store = rest.run w

omit [DecidableEq Conn] in
theorem Coherent.start (prog : κ → Except ε (Block σ ε α)) (s : σ) :
    Coherent prog (Machine.start s : Machine Conn σ ε α κ) :=
  ⟨fun _ _ h => absurd rfl h, fun _ _ _ _ h => by cases h⟩

/-- Leaving a transaction keeps the machine coherent. -/
theorem Coherent.release {prog : κ → Except ε (Block σ ε α)} {m : Machine Conn σ ε α κ}
    (hm : Coherent prog m) {c : Conn} (hc : m.phase c ≠ .idle) (s : σ) :
    Coherent prog ({ m with store := s }.setPhase c .idle) := by
  have hidle : ∀ d, ({ m with store := s }.setPhase c .idle).phase d = .idle := by
    intro d
    by_cases hd : d = c
    · rw [hd, Machine.setPhase_phase, Function.update_self]
    · rw [Machine.setPhase_phase, Function.update_of_ne hd]
      by_contra hne
      exact hd (hm.exclusive d c hne hc)
  refine ⟨fun d _ hd => absurd (hidle d) hd, fun d k w rest hd => ?_⟩
  rw [hidle d] at hd
  cases hd

/-- Moving the one open transaction on keeps the machine coherent, provided the new phase still
accounts for its call. -/
theorem Coherent.advance {prog : κ → Except ε (Block σ ε α)} {m : Machine Conn σ ε α κ} {c : Conn}
    (hother : ∀ d, d ≠ c → m.phase d = .idle) (p : Phase σ ε α κ)
    (hp : ∀ k w rest, p = .running k w rest → ∃ b, prog k = .ok b ∧ b.run m.store = rest.run w) :
    Coherent prog (m.setPhase c p) := by
  have hidle : ∀ d, d ≠ c → (m.setPhase c p).phase d = .idle := by
    intro d hd
    rw [Machine.setPhase_phase, Function.update_of_ne hd, hother d hd]
  have heq : ∀ d, (m.setPhase c p).phase d ≠ .idle → d = c := fun d hd => by
    by_contra hne
    exact hd (hidle d hne)
  refine ⟨fun d d' hd hd' => (heq d hd).trans (heq d' hd').symm, fun d k w rest hd => ?_⟩
  have hdc : d = c := heq d (by rw [hd]; exact fun h => by cases h)
  subst hdc
  rw [Machine.setPhase_phase, Function.update_self] at hd
  exact hp k w rest hd

/-- **One step is coherent and serial**: either the committed state does not change and no call
returns, or one call commits exactly what it does when it runs alone. -/
theorem Step.coherent {prog : κ → Except ε (Block σ ε α)} {m m' : Machine Conn σ ε α κ}
    {ev : Event Conn ε α κ} (hm : Coherent prog m) (h : Step prog m ev m') :
    Coherent prog m' ∧
      ((ev.returned? = none ∧ m'.store = m.store) ∨
        ∃ k a b, ev.returned? = some (k, a) ∧ prog k = .ok b ∧
          b.run m.store = .ok (a, m'.store)) := by
  have others : ∀ c, m.phase c ≠ .idle → ∀ d, d ≠ c → m.phase d = .idle := by
    intro c hc d hd
    by_contra hne
    exact hd (hm.exclusive d c hne hc)
  have busy : ∀ c k w rest, m.phase c = .running k w rest → m.phase c ≠ .idle := by
    intro c k w rest hc hidle
    rw [hidle] at hc
    cases hc
  cases h with
  | refuse | busy => exact ⟨hm, Or.inl ⟨rfl, rfl⟩⟩
  | begin hidle hk =>
    refine ⟨Coherent.advance (fun d _ => hidle d) _ ?_, Or.inl ⟨rfl, rfl⟩⟩
    intro k' w rest heq
    cases heq
    exact ⟨_, hk, rfl⟩
  | @exec c k w w' β f next b hc hf =>
    refine ⟨Coherent.advance (others c (busy _ _ _ _ hc)) _ ?_, Or.inl ⟨rfl, rfl⟩⟩
    intro k' w'' rest heq
    cases heq
    obtain ⟨blk, hk, hrun⟩ := hm.pending _ _ _ _ hc
    exact ⟨blk, hk, by rw [hrun, Block.run, hf]⟩
  | @rollback c k w rest e hc =>
    exact ⟨hm.release (busy _ _ _ _ hc) m.store, Or.inl ⟨rfl, rfl⟩⟩
  | @commit c k w a hc =>
    obtain ⟨blk, hk, hrun⟩ := hm.pending _ _ _ _ hc
    exact ⟨hm.release (busy _ _ _ _ hc) w, Or.inr ⟨k, a, blk, rfl, hk, hrun⟩⟩
  | @commitFails c k w a e hc =>
    refine ⟨Coherent.advance (others c (busy _ _ _ _ hc)) _ ?_, Or.inl ⟨rfl, rfl⟩⟩
    intro k' w' rest heq
    cases heq
  | @close c hc =>
    exact ⟨hm.release (by rw [hc]; exact fun h => by cases h) m.store, Or.inl ⟨rfl, rfl⟩⟩

theorem Run.coherent_serial {prog : κ → Except ε (Block σ ε α)} {m₀ m : Machine Conn σ ε α κ}
    {evs : List (Event Conn ε α κ)} (h₀ : Coherent prog m₀) (h : Run prog m₀ evs m) :
    Coherent prog m ∧ Serial prog m₀.store (returns evs) m.store := by
  induction h with
  | nil => exact ⟨h₀, .nil⟩
  | @snoc evs m ev m' _ hstep ih =>
    obtain ⟨hm, hser⟩ := ih
    obtain ⟨hm', ⟨hev, hstore⟩ | ⟨k, a, b, hev, hk, hrun⟩⟩ := hstep.coherent hm
    · refine ⟨hm', ?_⟩
      rw [hstore, returns_append, returns, returns, List.filterMap_cons_none hev,
        List.filterMap_nil, List.append_nil]
      exact hser
    · refine ⟨hm', ?_⟩
      rw [returns_append, returns, returns, List.filterMap_cons_some hev, List.filterMap_nil]
      exact hser.snoc hk hrun

/-- **Transactions serialise.** However the statements of the calls interleave and wherever calls are
refused, rolled back or abandoned, the committed state is what the calls that returned give when they
run one after another in commit order. -/
theorem Run.serial {prog : κ → Except ε (Block σ ε α)} {s : σ} {m : Machine Conn σ ε α κ}
    {evs : List (Event Conn ε α κ)} (h : Run prog (Machine.start s) evs m) :
    Serial prog s (returns evs) m.store :=
  (h.coherent_serial (Coherent.start prog s)).2

/-- A step that is not the return of a call leaves the committed state as it was. -/
theorem Step.store_eq {prog : κ → Except ε (Block σ ε α)} {m m' : Machine Conn σ ε α κ}
    {ev : Event Conn ε α κ} (h : Step prog m ev m') (hev : ev.returned? = none) :
    m'.store = m.store := by
  cases h with
  | commit => cases hev
  | _ => rfl

/-- The connection an event is about. -/
def Event.conn : Event Conn ε α κ → Conn
  | .began c _ | .executed c | .raised c _ _ | .returned c _ _ | .closed c => c

/-- While a connection is inside a transaction and only executes statements, nothing is committed. -/
theorem Step.store_eq_of_open {prog : κ → Except ε (Block σ ε α)} {m m' : Machine Conn σ ε α κ}
    {ev : Event Conn ε α κ} {c : Conn} (hm : Coherent prog m) (hc : m.phase c ≠ .idle)
    (h : Step prog m ev m') (hev : ev.conn = c → ev = .executed c) :
    m'.store = m.store ∧ m'.phase c ≠ .idle := by
  -- a transaction of another connection cannot be open
  have hother : ∀ {d : Conn} {p : Phase σ ε α κ}, m.phase d = p → p ≠ .idle → d = c := by
    rintro d _ rfl hp
    exact hm.exclusive d c hp hc
  cases h with
  | refuse | busy => exact ⟨rfl, hc⟩
  | begin hidle => exact absurd (hidle c) hc
  | @exec d k w w' β f next b hd =>
    obtain rfl := hother hd (fun h => nomatch h)
    refine ⟨rfl, ?_⟩
    rw [Machine.setPhase_phase, Function.update_self]
    exact fun h => nomatch h
  | rollback hd =>
    obtain rfl := hother hd (fun h => nomatch h)
    cases hev rfl
  | commit hd =>
    obtain rfl := hother hd (fun h => nomatch h)
    cases hev rfl
  | commitFails hd =>
    obtain rfl := hother hd (fun h => nomatch h)
    cases hev rfl
  | close hd =>
    obtain rfl := hother hd (fun h => nomatch h)
    cases hev rfl

/-- **A transaction that is given up leaves the committed state as it was when it began.** -/
theorem Run.store_eq_of_raised {prog : κ → Except ε (Block σ ε α)}
    {m m₁ m₂ m₃ : Machine Conn σ ε α κ} {evs : List (Event Conn ε α κ)} {c : Conn} {k : κ} {e : ε}
    (hm : Coherent prog m) (hbegin : Step prog m (.began c k) m₁) (hrun : Run prog m₁ evs m₂)
    (hevs : ∀ ev ∈ evs, ev.conn = c → ev = .executed c) (hraise : Step prog m₂ (.raised c k e) m₃) :
    m₃.store = m.store := by
  have hopen : m₁.phase c ≠ .idle := by
    cases hbegin
    rw [Machine.setPhase_phase, Function.update_self]
    exact fun h => nomatch h
  have hm₁ := (hbegin.coherent hm).1
  have hall : m₂.store = m₁.store ∧ m₂.phase c ≠ .idle ∧ Coherent prog m₂ := by
    clear hraise
    induction hrun with
    | nil => exact ⟨rfl, hopen, hm₁⟩
    | snoc _ hstep ih =>
      obtain ⟨hstore, hphase, hcoherent⟩ := ih fun ev hev => hevs ev (List.mem_append_left _ hev)
      obtain ⟨hstore', hphase'⟩ := hstep.store_eq_of_open hcoherent hphase
        (hevs _ (List.mem_append_right _ (List.mem_singleton_self _)))
      exact ⟨hstore'.trans hstore, hphase', (hstep.coherent hcoherent).1⟩
  rw [hraise.store_eq rfl, hall.1, hbegin.store_eq rfl]

/-! ## §4 Serial executions are runs -/

theorem Run.trans {prog : κ → Except ε (Block σ ε α)} {m₀ m m' : Machine Conn σ ε α κ}
    {evs evs' : List (Event Conn ε α κ)} (h : Run prog m₀ evs m) (h' : Run prog m evs' m') :
    Run prog m₀ (evs ++ evs') m' := by
  induction h' with
  | nil => simpa using h
  | snoc _ hstep ih => simpa only [List.append_assoc] using ih.snoc hstep

/-- A block that returns when it runs alone can be executed to its end, statement by statement. -/
theorem Run.of_block {prog : κ → Except ε (Block σ ε α)} {c : Conn} {k : κ} {b : Block σ ε α}
    {w w' : σ} {a : α} (h : b.run w = .ok (a, w')) (m : Machine Conn σ ε α κ) :
    ∃ evs, Run prog (m.setPhase c (.running k w b)) evs (m.setPhase c (.running k w' (.ret a))) ∧
      returns evs = [] := by
  have hphase : ∀ p, (m.setPhase c p).phase c = p := fun p => by
    rw [Machine.setPhase_phase, Function.update_self]
  have hset : ∀ p q, (m.setPhase c p).setPhase c q = m.setPhase c q := fun p q => by
    simp only [Machine.setPhase, Function.update_idem]
  induction b generalizing w with
  | ret a' =>
    cases h
    exact ⟨[], .nil, rfl⟩
  | throw e => cases h
  | exec f next ih =>
    simp only [Block.run] at h
    cases hf : f w with
    | error e => rw [hf] at h; cases h
    | ok r =>
      rw [hf] at h
      obtain ⟨evs, hrun, hret⟩ := ih r.1 h
      have hstep : Step prog (m.setPhase c (.running k w (.exec f next))) (.executed c)
          (m.setPhase c (.running k r.2 (next r.1))) := by
        rw [← hset (.running k w (.exec f next)) (.running k r.2 (next r.1))]
        exact Step.exec (hphase _) hf
      refine ⟨[.executed c] ++ evs, (Run.snoc .nil hstep).trans hrun, ?_⟩
      rw [returns_append, hret]
      rfl

/-- **Every serial execution is a run**, on any one of the connections. -/
theorem Serial.run {prog : κ → Except ε (Block σ ε α)} {s s' : σ} {log : List (κ × α)} (c : Conn)
    (h : Serial prog s log s') :
    ∃ evs : List (Event Conn ε α κ),
      Run prog (Machine.start s) evs (Machine.start s') ∧ returns evs = log := by
  induction h with
  | nil => exact ⟨[], .nil, rfl⟩
  | @snoc log t k b a s' _ hk hrun ih =>
    obtain ⟨evs, hevs, hret⟩ := ih
    obtain ⟨evs', hevs', hret'⟩ : ∃ evs, Run prog
        ((Machine.start t : Machine Conn σ ε α κ).setPhase c (.running k t b)) evs
        ((Machine.start t).setPhase c (.running k s' (.ret a))) ∧ returns evs = [] :=
      Run.of_block hrun _
    have hbegin : Step prog (Machine.start t) (.began c k)
        ((Machine.start t : Machine Conn σ ε α κ).setPhase c (.running k t b)) :=
      Step.begin (fun _ => rfl) hk
    have hcommit : Step prog ((Machine.start t).setPhase c (.running k s' (.ret a)))
        (.returned c k a) (Machine.start s' : Machine Conn σ ε α κ) := by
      have hphase : ((Machine.start t : Machine Conn σ ε α κ).setPhase c
          (.running k s' (.ret a))).phase c = .running k s' (.ret a) := by
        rw [Machine.setPhase_phase, Function.update_self]
      simpa [Machine.setPhase, Machine.start] using Step.commit hphase
    refine ⟨(evs ++ [.began c k]) ++ evs' ++ [.returned c k a],
      ((hevs.snoc hbegin).trans hevs').snoc hcommit, ?_⟩
    simp only [returns_append, hret, hret']
    simp [returns, Event.returned?]

end Machine

end FlopOffice.Lib
