/-
# FlopOffice.Identity.Base58 — the base58 codec, as its loops run.

`b58encode` and `b58decode` say with digit lists what the source does with loops over an integer, a byte
length taken from `bit_length`, and a loop over the leading zeros or ones. Here are the loops, and the two
are the same functions (`b58encode_eq_loop`, `b58decode_eq_loop`). So the loops undo each other
(`b58_codec`): on all zeros too, where the integer is 0 and the numeric part is empty.
-/
import Mathlib.Data.Nat.Size
import FlopOffice.Identity.Did

namespace FlopOffice.Identity

open FlopOffice.Lib FlopOffice.Python

/-! ## The loops -/

/-- `while n > 0: n, rem = divmod(n, 58); out.append(_B58_ALPHABET[rem])`. -/
def b58Loop (n : Nat) (out : PyStr) : PyStr :=
  if n = 0 then out else b58Loop (n / 58) (out ++ [b58Char (n % 58)])
termination_by n
decreasing_by omega

/-- A `1` for each leading zero byte. -/
def appendOnes (out : PyStr) : Bytes → PyStr
  | [] => out
  | byte :: data => if byte ≠ 0 then out else appendOnes (out ++ [b58Char 0]) data

/-- `_b58encode`. -/
def b58encodeLoop (data : Bytes) : PyStr :=
  (appendOnes (b58Loop (intFromBytes data) []) data).reverse

/-- The last `length` big-endian bytes of `n`. -/
def bigEndianBytes : Nat → Nat → Bytes
  | 0, _ => []
  | length + 1, n => bigEndianBytes length (n / 256) ++ [UInt8.ofNat (n % 256)]

/-- `n.to_bytes(length, "big")`. -/
def toBytes (n length : Nat) : Except Exc Bytes :=
  if n < 256 ^ length then .ok (bigEndianBytes length n)
  else .error ⟨.overflowError, py "int too big to convert"⟩

/-- The count of leading ones. -/
def leadingOnes (leading : Nat) : PyStr → Nat
  | [] => leading
  | c :: text => if c ≠ cp '1' then leading else leadingOnes (leading + 1) text

/-- `n.to_bytes((n.bit_length() + 7) // 8, "big") if n else b""`; `Nat.size` is `bit_length`. -/
def bodyBytes (n : Nat) : Except Exc Bytes := if n ≠ 0 then toBytes n ((n.size + 7) / 8) else .ok []

/-- `_b58decode`. -/
def b58decodeLoop (text : PyStr) : Except Exc Bytes :=
  if text = [] then .error ⟨.didKeyError, py "empty base58btc payload"⟩
  else if text.any fun c => 0x80 ≤ c.val then .error ⟨.unicodeEncodeError, []⟩
  else do
    let n ← b58Value 0 text
    let body ← bodyBytes n
    pure (List.replicate (leadingOnes 0 text) 0 ++ body)

/-! ## Encoding -/

theorem b58Loop_eq (n : Nat) (out : PyStr) : b58Loop n out = out ++ (Nat.digits 58 n).map b58Char := by
  induction n using Nat.strong_induction_on generalizing out with
  | _ n ih =>
    unfold b58Loop
    split
    · rename_i h0
      rw [h0, Nat.digits_zero, List.map_nil, List.append_nil]
    · rename_i h0
      rw [ih (n / 58) (by omega), Nat.digits_def' (by decide) (Nat.pos_of_ne_zero h0), List.map_cons,
        List.append_assoc, List.singleton_append]

theorem appendOnes_eq (out : PyStr) (data : Bytes) :
    appendOnes out data = out ++ (data.takeWhile fun b => b == 0).map fun _ => b58Char 0 := by
  induction data generalizing out with
  | nil => exact (List.append_nil out).symm
  | cons byte data ih =>
    unfold appendOnes
    split
    · rename_i hbyte
      rw [List.takeWhile_cons_of_neg (by simpa using hbyte), List.map_nil, List.append_nil]
    · rename_i hbyte
      rw [ih, List.takeWhile_cons_of_pos (by simpa using hbyte), List.map_cons, List.append_assoc,
        List.singleton_append]

theorem b58encode_eq_loop (data : Bytes) : b58encode data = b58encodeLoop data := by
  rw [b58encode, b58encodeLoop, appendOnes_eq, b58Loop_eq, List.nil_append]

/-! ## Decoding -/

/-- **The byte length is minimal**: rounded up from `bit_length`, it is the number of digits in base
256. -/
theorem digits_length_eq (n : Nat) : (Nat.digits 256 n).length = (n.size + 7) / 8 := by
  have hiff : ∀ k, (Nat.digits 256 n).length ≤ k ↔ (n.size + 7) / 8 ≤ k := by
    intro k
    have hpow : 256 ^ k = 2 ^ (8 * k) := (Nat.pow_mul 2 8 k).symm
    have hbytes : (Nat.digits 256 n).length ≤ k ↔ n < 256 ^ k :=
      Nat.digits_length_le_iff (by decide) n
    have hbits : n.size ≤ 8 * k ↔ n < 2 ^ (8 * k) := Nat.size_le
    rw [hbytes, hpow, ← hbits]
    omega
  exact Nat.le_antisymm ((hiff _).mpr (Nat.le_refl _)) ((hiff _).mp (Nat.le_refl _))

theorem bigEndianBytes_digits (n : Nat) :
    bigEndianBytes (Nat.digits 256 n).length n = minimalBytes n := by
  induction n using Nat.strong_induction_on with
  | _ n ih =>
    by_cases h0 : n = 0
    · rw [h0]
      rfl
    · have hdigits := Nat.digits_def' (b := 256) (by decide) (Nat.pos_of_ne_zero h0)
      rw [minimalBytes, hdigits, List.length_cons, bigEndianBytes, ih (n / 256) (by omega),
        minimalBytes, List.map_cons, List.reverse_cons]

/-- `to_bytes` never overflows there. -/
theorem bodyBytes_eq (n : Nat) : bodyBytes n = .ok (minimalBytes n) := by
  have hfits : n < 256 ^ (Nat.digits 256 n).length := Nat.lt_base_pow_length_digits (by decide)
  unfold bodyBytes
  split
  · rw [← digits_length_eq, toBytes, if_pos hfits, bigEndianBytes_digits]
  · rename_i h0
    rw [not_not.mp h0]
    rfl

theorem leadingOnes_eq (leading : Nat) (text : PyStr) :
    leadingOnes leading text = leading + (text.takeWhile fun c => c == cp '1').length := by
  induction text generalizing leading with
  | nil => rfl
  | cons c text ih =>
    unfold leadingOnes
    split
    · rename_i hc
      rw [List.takeWhile_cons_of_neg (by simpa using hc)]
      rfl
    · rename_i hc
      rw [ih, List.takeWhile_cons_of_pos (by simpa using hc), List.length_cons]
      omega

theorem b58decode_eq_loop (text : PyStr) : b58decode text = b58decodeLoop text := by
  unfold b58decode b58decodeLoop
  simp only [bodyBytes_eq, leadingOnes_eq, Nat.zero_add, List.map_const']
  rfl

/-! ## The codec -/

/-- **Encoding and decoding undo each other**, leading zero bytes and leading ones included. -/
theorem b58_codec :
    (∀ data : Bytes, data ≠ [] → b58decodeLoop (b58encodeLoop data) = .ok data) ∧
    ∀ text : PyStr, text ≠ [] → (∀ c ∈ text, c ∈ b58Alphabet) →
      ∃ data, b58decodeLoop text = .ok data ∧ b58encodeLoop data = text := by
  constructor
  · intro data hne
    rw [← b58encode_eq_loop, ← b58decode_eq_loop]
    exact b58decode_b58encode hne
  · intro text hne hmem
    have hdecode := b58decode_eq_ok.mpr ⟨hne, hmem, rfl⟩
    refine ⟨_, (b58decode_eq_loop text).symm.trans hdecode, ?_⟩
    rw [← b58encode_eq_loop]
    exact b58encode_of_b58decode hdecode

/-- A zero in front of 255, a one in front of two digits; and zeros or ones only, where nothing is left for
the integer. -/
theorem b58_codec_zeros :
    (∀ data ∈ [[0, 255], [0, 0]], b58decodeLoop (b58encodeLoop data) = .ok data) ∧
    ∀ text ∈ [py "15Q", py "11"], ∃ data, b58decodeLoop text = .ok data ∧ b58encodeLoop data = text := by
  have hdata : ∀ data ∈ [[0, 255], [0, 0]], data ≠ ([] : Bytes) := by decide
  have htext : ∀ text ∈ [py "15Q", py "11"], text ≠ [] ∧ ∀ c ∈ text, c ∈ b58Alphabet := by decide
  exact ⟨fun data h => b58_codec.1 data (hdata data h),
    fun text h => b58_codec.2 text (htext text h).1 (htext text h).2⟩

end FlopOffice.Identity
