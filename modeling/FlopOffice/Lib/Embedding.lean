/-
# FlopOffice.Lib.Embedding — a program as a part of a larger one.

The operations of a program are some of those of a larger one, and the state they move is a part of its
state. Embedded, the program is safe there if it is safe on its part: whatever the larger state adds stands
still (`safe_embed`). And every run on the part is one of the whole (`Exec.embed`).
-/
import FlopOffice.Lib.Process

namespace FlopOffice.Lib.Proc

variable {Op Op' : Type} {Ans : Op → Type} {Ans' : Op' → Type} {ε α σ σ' : Type}

/-- Every operation `op` as `inj op`, and its answer read back. -/
def embed (inj : Op → Op') (out : ∀ op, Ans' (inj op) → Ans op) :
    Proc Op Ans ε α → Proc Op' Ans' ε α
  | ret a => ret a
  | raise e => raise e
  | perform op next => perform (inj op) fun r => embed inj out (next (r.map (out op)))

/-- A part of a state: it can be read, and it can be replaced. -/
structure Part (σ σ' : Type) where
  get : σ' → σ
  set : σ' → σ → σ'
  set_get : ∀ s, set s (get s) = s
  get_set : ∀ s t, get (set s t) = t
  set_set : ∀ s t u, set (set s t) u = set s u

variable {inj : Op → Op'} {out : ∀ op, Ans' (inj op) → Ans op}
  {sem : σ → (op : Op) → Except ε (Ans op) → σ → Prop}
  {sem' : σ' → (op : Op') → Except ε (Ans' op) → σ' → Prop} {part : Part σ σ'}

/-- **An embedded program** does to its part what it does alone, and nothing else. -/
theorem safe_embed
    (hsem : ∀ s op r s', sem' s (inj op) r s' →
      ∃ t, sem (part.get s) op (r.map (out op)) t ∧ s' = part.set s t)
    {I : σ' → Prop} {Q : Except ε α → σ' → Prop} {p : Proc Op Ans ε α} {s : σ'}
    (h : Safe sem (fun t => I (part.set s t)) (fun r t => Q r (part.set s t)) p (part.get s)) :
    Safe sem' I Q (embed inj out p) s := by
  induction p generalizing s with
  | ret a =>
    have hback := part.set_get s
    obtain ⟨hI, hQ⟩ := h
    rw [hback] at hI hQ
    exact ⟨hI, hQ⟩
  | raise e =>
    have hback := part.set_get s
    obtain ⟨hI, hQ⟩ := h
    rw [hback] at hI hQ
    exact ⟨hI, hQ⟩
  | perform op next ih =>
    obtain ⟨hI, hnext⟩ := h
    rw [part.set_get s] at hI
    refine ⟨hI, fun r s' hop => ?_⟩
    obtain ⟨t, ht, rfl⟩ := hsem s op r s' hop
    apply ih
    rw [part.get_set]
    exact (hnext _ t ht).mono (fun u hu => by rw [part.set_set]; exact hu)
      fun r u _ hu => by rw [part.set_set]; exact hu

theorem Steps.embed
    (hsem : ∀ s op r t, sem (part.get s) op r t →
      ∃ r', r'.map (out op) = r ∧ sem' s (inj op) r' (part.set s t))
    {p p' : Proc Op Ans ε α} {t t' : σ} (h : Steps sem p t p' t') (s : σ') (hs : part.get s = t) :
    Steps sem' (embed inj out p) s (embed inj out p') (part.set s t') := by
  induction h generalizing s with
  | refl =>
    rw [← hs, part.set_get]
    exact .refl
  | step hop _ ih =>
    obtain ⟨r', rfl, hop'⟩ := hsem s _ _ _ (hs ▸ hop)
    have hrest := ih (part.set s _) (part.get_set s _)
    rw [part.set_set] at hrest
    exact .step hop' hrest

/-- **A run of the part** is one of the whole. -/
theorem Exec.embed
    (hsem : ∀ s op r t, sem (part.get s) op r t →
      ∃ r', r'.map (out op) = r ∧ sem' s (inj op) r' (part.set s t))
    {p : Proc Op Ans ε α} {s : σ'} {r : Except ε α} {t : σ} (h : Exec sem p (part.get s) r t) :
    Exec sem' (embed inj out p) s r (part.set s t) := by
  have hsteps := Steps.embed hsem h s rfl
  cases r with
  | ok a => exact hsteps
  | error e => exact hsteps

end FlopOffice.Lib.Proc
