/-
# FlopOffice.Lib.Sha256 — SHA-256 (FIPS 180-4), executable in the kernel.

The compression function over 32-bit words kept as naturals below `2 ^ 32`, the message schedule as a
sliding window of sixteen words, padding, and the digest as bytes. Nothing about the function's
strength is stated here: a development that needs collision resistance takes it as a hypothesis about
the messages it actually hashes.

Every word is computed through `force`, which makes the kernel's evaluator reduce a word to a literal
before it is used again; without it a round is a term of exponential size.
-/
import Mathlib.Algebra.Group.Nat.Defs
import Mathlib.Data.List.Basic
import Mathlib.Tactic.Common

namespace FlopOffice.Lib.Sha256

/-! ## Words -/

/-- `2 ^ 32`. -/
def wordModulus : Nat := 0x100000000

/-- Evaluate `n` to a literal, then continue. -/
def force {α : Type} (n : Nat) (f : Nat → α) : α :=
  match n with
  | 0 => f 0
  | k + 1 => f (k + 1)

@[simp] theorem force_eq {α : Type} (n : Nat) (f : Nat → α) : force n f = f n := by
  cases n <;> rfl

/-- Rotate a word to the right. -/
def rotr (x n : Nat) : Nat := (x >>> n) ||| ((x <<< (32 - n)) % wordModulus)

/-- The schedule's `σ₀`. -/
def sigma0 (x : Nat) : Nat := rotr x 7 ^^^ rotr x 18 ^^^ (x >>> 3)

/-- The schedule's `σ₁`. -/
def sigma1 (x : Nat) : Nat := rotr x 17 ^^^ rotr x 19 ^^^ (x >>> 10)

/-- The round's `Σ₀`. -/
def bigSigma0 (x : Nat) : Nat := rotr x 2 ^^^ rotr x 13 ^^^ rotr x 22

/-- The round's `Σ₁`. -/
def bigSigma1 (x : Nat) : Nat := rotr x 6 ^^^ rotr x 11 ^^^ rotr x 25

/-- `Ch`. -/
def ch (e f g : Nat) : Nat := (e &&& f) ^^^ ((wordModulus - 1 - e) &&& g)

/-- `Maj`. -/
def maj (a b c : Nat) : Nat := (a &&& b) ^^^ (a &&& c) ^^^ (b &&& c)

/-- The round constants. -/
def roundConstants : List Nat :=
  [0x428a2f98, 0x71374491, 0xb5c0fbcf, 0xe9b5dba5, 0x3956c25b, 0x59f111f1, 0x923f82a4, 0xab1c5ed5,
   0xd807aa98, 0x12835b01, 0x243185be, 0x550c7dc3, 0x72be5d74, 0x80deb1fe, 0x9bdc06a7, 0xc19bf174,
   0xe49b69c1, 0xefbe4786, 0x0fc19dc6, 0x240ca1cc, 0x2de92c6f, 0x4a7484aa, 0x5cb0a9dc, 0x76f988da,
   0x983e5152, 0xa831c66d, 0xb00327c8, 0xbf597fc7, 0xc6e00bf3, 0xd5a79147, 0x06ca6351, 0x14292967,
   0x27b70a85, 0x2e1b2138, 0x4d2c6dfc, 0x53380d13, 0x650a7354, 0x766a0abb, 0x81c2c92e, 0x92722c85,
   0xa2bfe8a1, 0xa81a664b, 0xc24b8b70, 0xc76c51a3, 0xd192e819, 0xd6990624, 0xf40e3585, 0x106aa070,
   0x19a4c116, 0x1e376c08, 0x2748774c, 0x34b0bcb5, 0x391c0cb3, 0x4ed8aa4a, 0x5b9cca4f, 0x682e6ff3,
   0x748f82ee, 0x78a5636f, 0x84c87814, 0x8cc70208, 0x90befffa, 0xa4506ceb, 0xbef9a3f7, 0xc67178f2]

/-! ## Compression -/

/-- The eight working words. -/
structure State where
  a : Nat
  b : Nat
  c : Nat
  d : Nat
  e : Nat
  f : Nat
  g : Nat
  h : Nat
  deriving DecidableEq

/-- The initial hash value. -/
def State.initial : State :=
  ⟨0x6a09e667, 0xbb67ae85, 0x3c6ef372, 0xa54ff53a, 0x510e527f, 0x9b05688c, 0x1f83d9ab, 0x5be0cd19⟩

/-- One round, with constant `k` and schedule word `w`. -/
def round : State → Nat → Nat → State
  | ⟨a, b, c, d, e, f, g, h⟩, k, w =>
    force (h + bigSigma1 e + ch e f g + k + w) fun t₁ =>
    force ((t₁ + bigSigma0 a + maj a b c) % wordModulus) fun a' =>
    force ((d + t₁) % wordModulus) fun e' =>
    ⟨a', a, b, c, e', e, f, g⟩

/-- The rounds, one for each pair of a constant and a schedule word. -/
def rounds : List Nat → List Nat → State → State
  | k :: ks, w :: ws, s => rounds ks ws (round s k w)
  | _, _, s => s

/-- `n` words of the message schedule, from a window of its next sixteen. -/
def schedule : Nat → List Nat → List Nat
  | n + 1, w₀ :: w₁ :: ws =>
    force ((sigma1 (ws.getD 12 0) + ws.getD 7 0 + sigma0 w₁ + w₀) % wordModulus) fun w =>
    w₀ :: schedule n (w₁ :: ws ++ [w])
  | _, _ => []

/-- The compression function on one block of sixteen words. -/
def compress (s : State) (block : List Nat) : State :=
  match s, rounds roundConstants (schedule 64 block) s with
  | ⟨a, b, c, d, e, f, g, h⟩, ⟨a', b', c', d', e', f', g', h'⟩ =>
    force ((a + a') % wordModulus) fun a => force ((b + b') % wordModulus) fun b =>
    force ((c + c') % wordModulus) fun c => force ((d + d') % wordModulus) fun d =>
    force ((e + e') % wordModulus) fun e => force ((f + f') % wordModulus) fun f =>
    force ((g + g') % wordModulus) fun g => force ((h + h') % wordModulus) fun h =>
    ⟨a, b, c, d, e, f, g, h⟩

/-! ## Messages and digests -/

/-- Big-endian words of a list of bytes. -/
def words : List Nat → List Nat
  | a :: b :: c :: d :: rest => (a * 0x1000000 + b * 0x10000 + c * 0x100 + d) :: words rest
  | _ => []

/-- `width` big-endian bytes of `n`. -/
def bigEndian : Nat → Nat → List Nat
  | 0, _ => []
  | width + 1, n => bigEndian width (n / 256) ++ [n % 256]

@[simp] theorem bigEndian_length (width n : Nat) : (bigEndian width n).length = width := by
  induction width generalizing n with
  | zero => rfl
  | succ width ih => simp [bigEndian, ih]

theorem lt_of_mem_bigEndian {width n b : Nat} (h : b ∈ bigEndian width n) : b < 256 := by
  induction width generalizing n with
  | zero => cases h
  | succ width ih =>
    rcases List.mem_append.mp h with h | h
    · exact ih h
    · rw [List.mem_singleton.mp h]
      exact Nat.mod_lt _ (by decide)

/-- The message, a one bit, zeros, and the message length in bits, in whole blocks. -/
def pad (message : List Nat) : List Nat :=
  message ++ 0x80 :: (List.replicate ((119 - message.length % 64) % 64) 0 ++
    bigEndian 8 (8 * message.length))

/-- Fold the compression function over the blocks; `fuel` is at least their number. -/
def absorb : Nat → List Nat → State → State
  | 0, _, s => s
  | _, [], s => s
  | fuel + 1, ws, s => absorb fuel (ws.drop 16) (compress s (ws.take 16))

/-- The 32 bytes of a final state. -/
def State.bytes (s : State) : List Nat :=
  [s.a, s.b, s.c, s.d, s.e, s.f, s.g, s.h].flatMap (bigEndian 4)

/-- The SHA-256 digest of a message, both as bytes. -/
def digest (message : List Nat) : List Nat :=
  (absorb (message.length + 2) (words (pad message)) State.initial).bytes

theorem digest_length (message : List Nat) : (digest message).length = 32 := by
  simp [digest, State.bytes]

example : (digest [0x61, 0x62, 0x63]).take 4 = [0xba, 0x78, 0x16, 0xbf] := by decide +kernel

end FlopOffice.Lib.Sha256
