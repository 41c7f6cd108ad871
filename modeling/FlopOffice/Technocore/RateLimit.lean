/-
# FlopOffice.Technocore.RateLimit — the client-side token bucket, in exact arithmetic.

Times and amounts are rationals. `acquire` reads the clock up to three times an iteration and sleeps
between two iterations; the readings it will get are a list, and where the list ends the call is still
waiting. The lock makes one `try_acquire` or one refill atomic; a bucket that nobody else uses is
passed from one to the next.
-/
import Mathlib.Data.Rat.Cast.Order
import FlopOffice.Python.Basic

namespace FlopOffice.Technocore

open FlopOffice.Python

/-- Continuously refilling token bucket. -/
structure TokenBucket where
  capacity : ℚ
  refillPerSecond : ℚ
  tokens : ℚ
  updated : ℚ
  capacity_pos : 0 < capacity
  refill_pos : 0 < refillPerSecond

namespace TokenBucket

/-- A full bucket for one token, which takes a second to come back. -/
def oneToken : TokenBucket := ⟨1, 1, 1, 0, by decide, by decide⟩

/-- A full bucket at the time `now`. -/
def create (capacity refillPerSecond now : ℚ) : Except Exc TokenBucket :=
  if h : 0 < capacity ∧ 0 < refillPerSecond then
    .ok ⟨capacity, refillPerSecond, capacity, now, h.1, h.2⟩
  else .error ⟨.valueError, py "capacity and refill_per_second must be positive"⟩

/-- `_refill`. -/
def refill (b : TokenBucket) (now : ℚ) : TokenBucket :=
  let elapsed := max 0 (now - b.updated)
  { b with tokens := min b.capacity (b.tokens + elapsed * b.refillPerSecond), updated := now }

/-- `try_acquire`, at the time `now`. -/
def tryAcquire (b : TokenBucket) (tokens now : ℚ) : Bool × TokenBucket :=
  let b := b.refill now
  if tokens ≤ b.tokens then (true, { b with tokens := b.tokens - tokens }) else (false, b)

theorem tryAcquire_of_le {b : TokenBucket} {tokens now : ℚ} (h : tokens ≤ (b.refill now).tokens) :
    b.tryAcquire tokens now =
      (true, { b.refill now with tokens := (b.refill now).tokens - tokens }) := if_pos h

theorem tryAcquire_of_lt {b : TokenBucket} {tokens now : ℚ} (h : (b.refill now).tokens < tokens) :
    b.tryAcquire tokens now = (false, b.refill now) := if_neg (not_le.mpr h)

/-- How a call of `acquire` stands. -/
inductive Acquired
  | granted
  | refused (retryAfter : ℚ)
  | waiting
  deriving DecidableEq

/-- The loop of `acquire`, over the readings of the clock. -/
def acquireLoop (tokens deadline : ℚ) (block : Bool) : TokenBucket → List ℚ → Acquired × TokenBucket
  | b, [] => (.waiting, b)
  | b, t₁ :: rest =>
    match b.tryAcquire tokens t₁ with
    | (true, b) => (.granted, b)
    | (false, b) =>
      match rest with
      | [] => (.waiting, b)
      | t₂ :: rest =>
        let b := b.refill t₂
        let wait := max (1 / 100) ((tokens - b.tokens) / b.refillPerSecond)
        if !block then (.refused wait, b)
        else match rest with
          | [] => (.waiting, b)
          | t₃ :: rest =>
            if t₃ + wait > deadline then (.refused wait, b) else acquireLoop tokens deadline block b rest

/-- One turn of the loop. -/
theorem acquireLoop_cons (tokens deadline : ℚ) (block : Bool) (b : TokenBucket) (t₁ : ℚ)
    (rest : List ℚ) : b.acquireLoop tokens deadline block (t₁ :: rest) =
      match b.tryAcquire tokens t₁ with
      | (true, b) => (.granted, b)
      | (false, b) =>
        match rest with
        | [] => (.waiting, b)
        | t₂ :: rest =>
          let b := b.refill t₂
          let wait := max (1 / 100) ((tokens - b.tokens) / b.refillPerSecond)
          if !block then (.refused wait, b)
          else match rest with
            | [] => (.waiting, b)
            | t₃ :: rest =>
              if t₃ + wait > deadline then (.refused wait, b)
              else b.acquireLoop tokens deadline block rest := by
  conv_lhs => unfold acquireLoop

/-- `acquire`: the first reading fixes the deadline. -/
def acquire (b : TokenBucket) (readings : List ℚ) (tokens : ℚ := 1) (block : Bool := true)
    (maxWait : ℚ := 30) : Acquired × TokenBucket :=
  match readings with
  | [] => (.waiting, b)
  | t₀ :: rest => acquireLoop tokens (t₀ + maxWait) block b rest

end TokenBucket

end FlopOffice.Technocore
