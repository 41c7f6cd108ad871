/-
# FlopOffice.Lib.Process — programs that call their surroundings, and what holds at every point of them.

A `Proc` is imperative code without loops, as a tree: it returns, raises, or performs one operation and
goes on with the answer, a value or an exception. What operations do is not part of it: a relation
`sem s op r s'` says that in the state `s` of the surroundings `op` may answer `r` and leave `s'`.

`Steps` runs a program for any number of operations, so that where it may be cut is every place it can
reach; `Exec` runs it to its end. `Safe sem I Q p s` says, by recursion on the program, that `I` holds
at every such place and `Q` of its outcome. The rules are equations: whatever the program is built
with, `Safe` of the whole is `Safe` of the parts.
-/
import Mathlib.Tactic.Common

namespace FlopOffice.Lib

/-! ## Programs -/

/-- A program over the operations `Op`, raising `ε` or returning `α`. -/
inductive Proc (Op : Type) (Ans : Op → Type) (ε α : Type) : Type where
  | ret (a : α)
  | raise (e : ε)
  | perform (op : Op) (next : Except ε (Ans op) → Proc Op Ans ε α)

namespace Proc

variable {Op : Type} {Ans : Op → Type} {ε α β σ : Type}

/-- A program that is at its end. -/
def lift : Except ε α → Proc Op Ans ε α
  | .ok a => ret a
  | .error e => raise e

/-- Go on with `k` from whatever a program ends with. -/
def handle : Proc Op Ans ε α → (Except ε α → Proc Op Ans ε β) → Proc Op Ans ε β
  | ret a, k => k (.ok a)
  | raise e, k => k (.error e)
  | perform op next, k => perform op fun r => (next r).handle k

/-- `f(p)`: an exception is passed on. -/
def bind (p : Proc Op Ans ε α) (f : α → Proc Op Ans ε β) : Proc Op Ans ε β :=
  p.handle fun r => match r with
    | .ok a => f a
    | .error e => raise e

instance : Monad (Proc Op Ans ε) where
  pure := ret
  bind := bind

/-- One operation. -/
def call (op : Op) : Proc Op Ans ε (Ans op) := perform op lift

/-- `try: p` with a handler. -/
def catch_ (p : Proc Op Ans ε α) (h : ε → Proc Op Ans ε α) : Proc Op Ans ε α :=
  p.handle fun r => match r with
    | .ok a => ret a
    | .error e => h e

/-- `try: p finally: q`: what `q` raises replaces what `p` ended with. -/
def finally_ (p : Proc Op Ans ε α) (q : Proc Op Ans ε Unit) : Proc Op Ans ε α :=
  p.handle fun r => q.bind fun _ => lift r

/-! ## Executions -/

variable (sem : σ → (op : Op) → Except ε (Ans op) → σ → Prop)

/-- Any number of operations. -/
inductive Steps : Proc Op Ans ε α → σ → Proc Op Ans ε α → σ → Prop
  | refl {p s} : Steps p s p s
  | step {op next s r s₁ p' s'} : sem s op r s₁ → Steps (next r) s₁ p' s' →
      Steps (perform op next) s p' s'

/-- A program runs to its end. -/
def Exec (p : Proc Op Ans ε α) (s : σ) (r : Except ε α) (s' : σ) : Prop :=
  Steps sem p s (lift r) s'

variable {sem}

theorem Steps.trans {p p' p'' : Proc Op Ans ε α} {s s' s'' : σ} (h : Steps sem p s p' s')
    (h' : Steps sem p' s' p'' s'') : Steps sem p s p'' s'' := by
  induction h with
  | refl => exact h'
  | step hop _ ih => exact .step hop (ih h')

/-- What every operation preserves holds wherever a program gets. -/
theorem Steps.inv {J : σ → Prop} (hJ : ∀ s op r s', sem s op r s' → J s → J s')
    {p p' : Proc Op Ans ε α} {s s' : σ} (h : Steps sem p s p' s') (hs : J s) : J s' := by
  induction h with
  | refl => exact hs
  | step hop _ ih => exact ih (hJ _ _ _ _ hop hs)

theorem exec_lift {r : Except ε α} {s : σ} : Exec sem (lift r : Proc Op Ans ε α) s r s := .refl

theorem exec_call {op : Op} {r : Except ε (Ans op)} {s s' : σ} (h : sem s op r s') :
    Exec sem (call op : Proc Op Ans ε (Ans op)) s r s' := .step h .refl

/-- What the first part ends with is where the second part starts. -/
theorem Exec.handle {p : Proc Op Ans ε α} {k : Except ε α → Proc Op Ans ε β} {q : Proc Op Ans ε β}
    {r : Except ε α} {s s' s'' : σ} (h : Exec sem p s r s') (h' : Steps sem (k r) s' q s'') :
    Steps sem (p.handle k) s q s'' := by
  unfold Exec at h
  generalize hq : (lift r : Proc Op Ans ε α) = p' at h
  induction h with
  | refl =>
    subst hq
    cases r <;> exact h'
  | step hop _ ih => exact .step hop (ih h' hq)

theorem Exec.bind {p : Proc Op Ans ε α} {f : α → Proc Op Ans ε β} {a : α} {r : Except ε β}
    {s s' s'' : σ} (h : Exec sem p s (.ok a) s') (h' : Exec sem (f a) s' r s'') :
    Exec sem (p >>= f) s r s'' := h.handle h'

theorem Exec.bind_error {p : Proc Op Ans ε α} {f : α → Proc Op Ans ε β} {e : ε} {s s' : σ}
    (h : Exec sem p s (.error e) s') : Exec sem (p >>= f) s (.error e) s' :=
  h.handle (k := fun r => match r with
    | .ok a => f a
    | .error e => raise e) .refl

theorem Exec.catch_ok {p : Proc Op Ans ε α} {f : ε → Proc Op Ans ε α} {a : α} {s s' : σ}
    (h : Exec sem p s (.ok a) s') : Exec sem (p.catch_ f) s (.ok a) s' :=
  h.handle (k := fun r => match r with
    | .ok a => ret a
    | .error e => f e) .refl

theorem Exec.catch_error {p : Proc Op Ans ε α} {f : ε → Proc Op Ans ε α} {e : ε} {r : Except ε α}
    {s s' s'' : σ} (h : Exec sem p s (.error e) s') (h' : Exec sem (f e) s' r s'') :
    Exec sem (p.catch_ f) s r s'' := h.handle h'

theorem Exec.finally_ok {p : Proc Op Ans ε α} {q : Proc Op Ans ε Unit} {r : Except ε α} {s s' s'' : σ}
    (h : Exec sem p s r s') (h' : Exec sem q s' (.ok ()) s'') : Exec sem (p.finally_ q) s r s'' :=
  h.handle (h'.bind exec_lift)

/-! ## What holds at every point -/

variable (sem) in
/-- `I` holds wherever the program can be cut, and `Q` of what it ends with. -/
def Safe (I : σ → Prop) (Q : Except ε α → σ → Prop) : Proc Op Ans ε α → σ → Prop
  | ret a, s => I s ∧ Q (.ok a) s
  | raise e, s => I s ∧ Q (.error e) s
  | perform op next, s => I s ∧ ∀ r s', sem s op r s' → Safe I Q (next r) s'

variable {I I' : σ → Prop} {Q Q' : Except ε α → σ → Prop}

theorem Safe.inv {p : Proc Op Ans ε α} {s : σ} (h : Safe sem I Q p s) : I s := by
  cases p with
  | ret a => exact h.1
  | raise e => exact h.1
  | perform op next => exact h.1

/-- **Safety is kept by every step.** -/
theorem Safe.steps {p p' : Proc Op Ans ε α} {s s' : σ} (h : Safe sem I Q p s)
    (hs : Steps sem p s p' s') : Safe sem I Q p' s' := by
  induction hs with
  | refl => exact h
  | step hop _ ih => exact ih (h.2 _ _ hop)

theorem Safe.exec {p : Proc Op Ans ε α} {s s' : σ} {r : Except ε α} (h : Safe sem I Q p s)
    (hs : Exec sem p s r s') : I s' ∧ Q r s' := by
  have hend := h.steps hs
  cases r with
  | ok a => exact hend
  | error e => exact hend

theorem Safe.mono {p : Proc Op Ans ε α} {s : σ} (h : Safe sem I Q p s) (hI : ∀ s, I s → I' s)
    (hQ : ∀ r s, I s → Q r s → Q' r s) : Safe sem I' Q' p s := by
  induction p generalizing s with
  | ret a => exact ⟨hI s h.1, hQ _ s h.1 h.2⟩
  | raise e => exact ⟨hI s h.1, hQ _ s h.1 h.2⟩
  | perform op next ih => exact ⟨hI s h.1, fun r s' hop => ih r (h.2 r s' hop)⟩

/-! ## The rules -/

@[simp] theorem safe_ret {a : α} {s : σ} :
    Safe sem I Q (ret a : Proc Op Ans ε α) s ↔ I s ∧ Q (.ok a) s := Iff.rfl

@[simp] theorem safe_pure {a : α} {s : σ} :
    Safe sem I Q (pure a : Proc Op Ans ε α) s ↔ I s ∧ Q (.ok a) s := Iff.rfl

@[simp] theorem safe_raise {e : ε} {s : σ} :
    Safe sem I Q (raise e : Proc Op Ans ε α) s ↔ I s ∧ Q (.error e) s := Iff.rfl

@[simp] theorem safe_lift {r : Except ε α} {s : σ} :
    Safe sem I Q (lift r : Proc Op Ans ε α) s ↔ I s ∧ Q r s := by
  cases r <;> exact Iff.rfl

/-- **The rule of sequence**: what the first part ends with is where the second part is safe. -/
theorem safe_handle {p : Proc Op Ans ε α} {k : Except ε α → Proc Op Ans ε β}
    {Q : Except ε β → σ → Prop} {s : σ} :
    Safe sem I Q (p.handle k) s ↔ Safe sem I (fun r s' => Safe sem I Q (k r) s') p s := by
  induction p generalizing s with
  | ret a => exact ⟨fun h => ⟨h.inv, h⟩, fun h => h.2⟩
  | raise e => exact ⟨fun h => ⟨h.inv, h⟩, fun h => h.2⟩
  | perform op next ih =>
    show (I s ∧ ∀ r s', _ → Safe sem I Q ((next r).handle k) s') ↔ _
    exact and_congr_right fun _ => forall_congr' fun r => forall_congr' fun s' =>
      imp_congr_right fun _ => ih r

@[simp] theorem safe_bind {p : Proc Op Ans ε α} {f : α → Proc Op Ans ε β}
    {Q : Except ε β → σ → Prop} {s : σ} :
    Safe sem I Q (p >>= f) s ↔ Safe sem I (fun r s' => match r with
      | .ok a => Safe sem I Q (f a) s'
      | .error e => I s' ∧ Q (.error e) s') p s := by
  refine safe_handle.trans (iff_of_eq ?_)
  congr 1
  funext r s'
  cases r <;> rfl

@[simp] theorem safe_catch {p : Proc Op Ans ε α} {h : ε → Proc Op Ans ε α} {s : σ} :
    Safe sem I Q (p.catch_ h) s ↔ Safe sem I (fun r s' => match r with
      | .ok a => I s' ∧ Q (.ok a) s'
      | .error e => Safe sem I Q (h e) s') p s := by
  refine safe_handle.trans (iff_of_eq ?_)
  congr 1
  funext r s'
  cases r <;> rfl

@[simp] theorem safe_finally {p : Proc Op Ans ε α} {q : Proc Op Ans ε Unit} {s : σ} :
    Safe sem I Q (p.finally_ q) s ↔ Safe sem I (fun r s' =>
      Safe sem I (fun rq s'' => I s'' ∧ Q (rq.bind fun _ => r) s'') q s') p s := by
  refine safe_handle.trans (iff_of_eq ?_)
  congr 1
  funext r s'
  refine propext ((safe_bind (p := q)).trans (iff_of_eq ?_))
  congr 1
  funext rq s''
  cases rq with
  | ok u => exact propext safe_lift
  | error e => rfl

/-- One operation: every answer it may give has to do. -/
@[simp] theorem safe_call {op : Op} {Q : Except ε (Ans op) → σ → Prop} {s : σ} :
    Safe sem I Q (call op : Proc Op Ans ε (Ans op)) s ↔
      I s ∧ ∀ r s', sem s op r s' → I s' ∧ Q r s' := by
  refine and_congr_right fun _ => forall_congr' fun r => forall_congr' fun s' =>
    imp_congr_right fun _ => ?_
  exact safe_lift

@[simp] theorem safe_ite {c : Prop} [Decidable c] {p q : Proc Op Ans ε α} {s : σ} :
    Safe sem I Q (if c then p else q) s ↔
      (c → Safe sem I Q p s) ∧ (¬ c → Safe sem I Q q s) := by
  split
  · rename_i hc
    simp [hc]
  · rename_i hc
    simp [hc]

/-! ## Programs that leave something alone -/

/-- Every operation the program can come to satisfies `P`. -/
def Only (P : Op → Prop) : Proc Op Ans ε α → Prop
  | ret _ => True
  | raise _ => True
  | perform op next => P op ∧ ∀ r, Only P (next r)

variable {P : Op → Prop}

theorem only_lift {r : Except ε α} : Only P (lift r : Proc Op Ans ε α) := by
  cases r with
  | ok a => trivial
  | error e => trivial

theorem only_call {op : Op} (h : P op) : Only P (call op : Proc Op Ans ε (Ans op)) :=
  ⟨h, fun _ => only_lift⟩

theorem Only.handle {p : Proc Op Ans ε α} {k : Except ε α → Proc Op Ans ε β} (hp : Only P p)
    (hk : ∀ r, Only P (k r)) : Only P (p.handle k) := by
  induction p with
  | ret a => exact hk _
  | raise e => exact hk _
  | perform op next ih => exact ⟨hp.1, fun r => ih r (hp.2 r)⟩

theorem Only.bind {p : Proc Op Ans ε α} {f : α → Proc Op Ans ε β} (hp : Only P p)
    (hf : ∀ a, Only P (f a)) : Only P (p >>= f) :=
  hp.handle fun r => match r with
    | .ok a => hf a
    | .error _ => trivial

theorem Only.catch_ {p : Proc Op Ans ε α} {h : ε → Proc Op Ans ε α} (hp : Only P p)
    (hh : ∀ e, Only P (h e)) : Only P (p.catch_ h) :=
  hp.handle fun r => match r with
    | .ok _ => trivial
    | .error e => hh e

theorem Only.finally_ {p : Proc Op Ans ε α} {q : Proc Op Ans ε Unit} (hp : Only P p) (hq : Only P q) :
    Only P (p.finally_ q) :=
  hp.handle fun _ => hq.bind fun _ => only_lift

theorem only_ite {c : Prop} [Decidable c] {p q : Proc Op Ans ε α} (hp : Only P p) (hq : Only P q) :
    Only P (if c then p else q) := by
  split
  · exact hp
  · exact hq

/-- A program whose operations do not move the state leaves it where it is. -/
theorem Only.safe {p : Proc Op Ans ε α} {s : σ} (h : Only P p)
    (hstay : ∀ op r s', P op → sem s op r s' → s' = s) (hs : I s) :
    Safe sem I (fun _ s' => s' = s) p s := by
  induction p with
  | ret a => exact ⟨hs, rfl⟩
  | raise e => exact ⟨hs, rfl⟩
  | perform op next ih =>
    refine ⟨hs, fun r s' hop => ?_⟩
    obtain rfl := hstay op r s' h.1 hop
    exact ih r (h.2 r)

end Proc

end FlopOffice.Lib
