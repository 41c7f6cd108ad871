/-
# FlopOffice.Python.Hashlib — `hashlib.sha256` and `base64.urlsafe_b64encode`.

The digest is the real one (`FlopOffice.Lib.Sha256`), so a concrete row hashes to what the program
stores. `hexdigest` is what every hash field of the ledger holds: 64 lowercase hexadecimal digits.
-/
import Mathlib.Data.List.GetD
import FlopOffice.Lib.PackedSha256
import FlopOffice.Python.Text

namespace FlopOffice.Python

open FlopOffice.Lib

/-! ## SHA-256 -/

/-- `hashlib.sha256(data).digest()`. -/
def sha256 (data : Bytes) : Bytes := (Sha256.digest (data.map UInt8.toNat)).map UInt8.ofNat

theorem sha256_length (data : Bytes) : (sha256 data).length = 32 := by
  rw [sha256, List.length_map, Sha256.digest_length]

/-- `data.hex()`. -/
def hexOf (data : Bytes) : PyStr := data.flatMap fun b => hexPad 2 b.toNat

theorem hexOf_length (data : Bytes) : (hexOf data).length = 2 * data.length := by
  induction data with
  | nil => rfl
  | cons b data ih =>
    simp only [hexOf, List.flatMap_cons, List.length_append, hexPad_length] at ih ⊢
    rw [ih, List.length_cons]
    omega

theorem hexOf_injective : Function.Injective hexOf := by
  have key : ∀ m, m < 16 → ∀ n, n < 16 → hexDigit m = hexDigit n → m = n := by decide
  have digit : ∀ m n, hexDigit m = hexDigit n → m % 16 = n % 16 := by
    intro m n h
    refine key _ (Nat.mod_lt _ (by decide)) _ (Nat.mod_lt _ (by decide)) ?_
    simpa only [hexDigit, Nat.mod_mod] using h
  intro a b h
  induction a generalizing b with
  | nil =>
    cases b with
    | nil => rfl
    | cons y b => cases h
  | cons x a ih =>
    cases b with
    | nil => cases h
    | cons y b =>
      simp only [hexOf, List.flatMap_cons, hexPad, List.nil_append, List.cons_append,
        List.cons.injEq] at h
      obtain ⟨hhi, hlo, hrest⟩ := h
      have hx := x.toNat_lt
      have hy := y.toNat_lt
      have h₁ := digit _ _ hhi
      have h₂ := digit _ _ hlo
      have hxy : x = y := UInt8.toNat_inj.mp (by omega)
      rw [hxy, ih (by simpa only [hexOf, hexPad, List.nil_append, List.cons_append] using hrest)]

theorem mem_hexAlphabet_of_mem_hexOf {data : Bytes} {c : CodePoint} (h : c ∈ hexOf data) :
    c ∈ hexAlphabet := by
  obtain ⟨b, -, hc⟩ := List.mem_flatMap.mp h
  exact mem_hexAlphabet_of_mem_hexPad hc

/-- `hashlib.sha256(data).hexdigest()`. -/
def hexdigest (data : Bytes) : PyStr := hexOf (sha256 data)

@[simp] theorem hexdigest_length (data : Bytes) : (hexdigest data).length = 64 := by
  rw [hexdigest, hexOf_length, sha256_length]

/-- `hexdigest`, as a proof evaluates it. -/
def packedHexdigest (data : Bytes) : PyStr :=
  hexOf ((Sha256.packedDigest (data.map UInt8.toNat)).map UInt8.ofNat)

theorem hexdigest_eq_packed (data : Bytes) : hexdigest data = packedHexdigest data := by
  have hbytes : ∀ b ∈ data.map UInt8.toNat, b < 256 := by
    intro b hb
    obtain ⟨x, -, rfl⟩ := List.mem_map.mp hb
    exact x.toNat_lt
  rw [hexdigest, sha256, packedHexdigest, Sha256.digest_eq_packed hbytes]

/-- Equal hex digests are equal digests. -/
theorem sha256_eq_of_hexdigest_eq {data data' : Bytes} (h : hexdigest data = hexdigest data') :
    sha256 data = sha256 data' :=
  hexOf_injective h

theorem mem_hexAlphabet_of_mem_hexdigest {data : Bytes} {c : CodePoint}
    (h : c ∈ hexdigest data) : c ∈ hexAlphabet :=
  mem_hexAlphabet_of_mem_hexOf h

/-! ## URL-safe base64 -/

/-- The URL-safe alphabet. -/
def base64Alphabet : PyStr :=
  py "ABCDEFGHIJKLMNOPQRSTUVWXYZ" ++ py "abcdefghijklmnopqrstuvwxyz" ++ py "0123456789-_"

/-- The digit of a six-bit value. -/
def base64Digit (n : Nat) : CodePoint := base64Alphabet.getD (n % 64) (cp 'A')

/-- `base64.urlsafe_b64encode(raw).decode("ascii").rstrip("=")`: every three bytes give four digits,
a last one or two bytes give two or three. -/
def base64Unpadded : Bytes → PyStr
  | a :: b :: c :: rest =>
    let n := a.toNat * 0x10000 + b.toNat * 0x100 + c.toNat
    base64Digit (n / 0x40000) :: base64Digit (n / 0x1000) :: base64Digit (n / 0x40) ::
      base64Digit n :: base64Unpadded rest
  | [a, b] =>
    let n := a.toNat * 0x400 + b.toNat * 0x4
    [base64Digit (n / 0x1000), base64Digit (n / 0x40), base64Digit n]
  | [a] =>
    let n := a.toNat * 0x10
    [base64Digit (n / 0x40), base64Digit n]
  | [] => []

theorem base64Digit_mem (n : Nat) : base64Digit n ∈ base64Alphabet := by
  have hlt : n % 64 < base64Alphabet.length := Nat.lt_of_lt_of_eq (Nat.mod_lt _ (by decide)) (by decide)
  rw [base64Digit, List.getD_eq_getElem _ _ hlt]
  exact List.getElem_mem hlt

theorem mem_base64Alphabet {raw : Bytes} {c : CodePoint} (h : c ∈ base64Unpadded raw) :
    c ∈ base64Alphabet := by
  induction raw using base64Unpadded.induct with
  | case1 a b d rest ih =>
    simp only [base64Unpadded, List.mem_cons] at h
    rcases h with rfl | rfl | rfl | rfl | h
    · exact base64Digit_mem _
    · exact base64Digit_mem _
    · exact base64Digit_mem _
    · exact base64Digit_mem _
    · exact ih h
  | case2 a b =>
    simp only [base64Unpadded, List.mem_cons, List.not_mem_nil, or_false] at h
    rcases h with rfl | rfl | rfl <;> exact base64Digit_mem _
  | case3 a =>
    simp only [base64Unpadded, List.mem_cons, List.not_mem_nil, or_false] at h
    rcases h with rfl | rfl <;> exact base64Digit_mem _
  | case4 => cases h

theorem base64Unpadded_length (raw : Bytes) :
    (base64Unpadded raw).length = (raw.length * 8 + 5) / 6 := by
  induction raw using base64Unpadded.induct with
  | case1 a b c rest ih =>
    simp only [base64Unpadded, List.length_cons, ih]
    omega
  | case2 a b => simp [base64Unpadded]
  | case3 a => simp [base64Unpadded]
  | case4 => simp [base64Unpadded]

end FlopOffice.Python
