/-
# FlopOffice.Identity.Did — did:key encoding and decoding for Ed25519.

A did:key is self-describing: `did:key:z` and the base58 form of the multicodec prefix and the 32 key
bytes. Decoding refuses everything else with `DidKeyError`, with one exception that callers have to
reckon with: a character outside ASCII makes `str.encode("ascii")` raise `UnicodeEncodeError`.
-/
import Mathlib.Data.List.GetD
import Mathlib.Data.Nat.Digits.Defs
import FlopOffice.Lib.Radix
import FlopOffice.Python.Text

namespace FlopOffice.Identity

open FlopOffice.Lib FlopOffice.Python

/-! ## Base58 -/

def ED25519_MULTICODEC : Bytes := [0xed, 0x01]

/-- `_B58_ALPHABET`. -/
def b58Alphabet : PyStr :=
  py "123456789ABCDEFGHJKLMNPQRSTUVWXYZ" ++ py "abcdefghijkmnopqrstuvwxyz"

def DID_PREFIX : PyStr := py "did:key:"
def MULTIBASE_BASE58BTC : PyStr := py "z"
def ED25519_PUBLIC_KEY_LENGTH : Nat := 32

/-- `int.from_bytes(data, "big")`. -/
def intFromBytes (data : Bytes) : Nat := data.foldl (fun n b => n * 256 + b.toNat) 0

/-- `n.to_bytes((n.bit_length() + 7) // 8, "big")`. -/
def minimalBytes (n : Nat) : Bytes := ((Nat.digits 256 n).map UInt8.ofNat).reverse

/-- `_B58_ALPHABET[d]`. -/
def b58Char (d : Nat) : CodePoint := b58Alphabet.getD d (cp '1')

/-- `_b58encode`. The digits come out least significant first, then a `1` for each leading zero byte,
and all of it is reversed. -/
def b58encode (data : Bytes) : PyStr :=
  let out := (Nat.digits 58 (intFromBytes data)).map b58Char
  (out ++ (data.takeWhile fun b => b == 0).map fun _ => b58Char 0).reverse

/-- The loop of `_b58decode`. -/
def b58Value (n : Nat) : PyStr → Except Exc Nat
  | [] => .ok n
  | c :: rest =>
    if c ∈ b58Alphabet then b58Value (n * 58 + b58Alphabet.idxOf c) rest
    else .error ⟨.didKeyError, py "invalid base58btc character in did:key"⟩

/-- `_b58decode`. -/
def b58decode (text : PyStr) : Except Exc Bytes :=
  if text = [] then .error ⟨.didKeyError, py "empty base58btc payload"⟩
  else if text.any fun c => 0x80 ≤ c.val then .error ⟨.unicodeEncodeError, []⟩
  else do
    let n ← b58Value 0 text
    pure (((text.takeWhile fun c => c == cp '1').map fun _ => 0) ++ minimalBytes n)

/-! ## did:key -/

/-- Encode a raw 32-byte Ed25519 public key. -/
def encodeDidKey (publicKey : Bytes) : Except Exc PyStr :=
  if publicKey.length ≠ ED25519_PUBLIC_KEY_LENGTH then
    .error ⟨.didKeyError, py "Ed25519 public key must be 32 bytes, got " ++
      decimalDigits publicKey.length⟩
  else .ok (DID_PREFIX ++ MULTIBASE_BASE58BTC ++ b58encode (ED25519_MULTICODEC ++ publicKey))

/-- The raw 32-byte Ed25519 public key inside `did`. -/
def decodeDidKey (did : PyStr) : Except Exc Bytes :=
  if ¬ DID_PREFIX <+: did then .error ⟨.didKeyError, py "did must start with 'did:key:'"⟩
  else
    let body := did.drop DID_PREFIX.length
    if ¬ MULTIBASE_BASE58BTC <+: body then
      .error ⟨.didKeyError, py "did:key must use multibase base58btc ('z') encoding"⟩
    else do
      let decoded ← b58decode (body.drop 1)
      if ¬ ED25519_MULTICODEC <+: decoded then
        throw ⟨.didKeyError, py "did:key is not an ed25519-pub key (multicodec 0xED01)"⟩
      let key := decoded.drop ED25519_MULTICODEC.length
      if key.length ≠ ED25519_PUBLIC_KEY_LENGTH then
        throw ⟨.didKeyError, py "decoded key is " ++ decimalDigits key.length ++
          py " bytes, expected 32"⟩
      pure key

/-- A validated public identity. -/
structure DidKey where
  did : PyStr
  valid : ∃ key, decodeDidKey did = .ok key

/-- `is_valid_did_key`: only `DidKeyError` is caught. -/
def isValidDidKey (did : PyStr) : Except Exc Bool :=
  match decodeDidKey did with
  | .ok _ => .ok true
  | .error e => if e.cls = .didKeyError then .ok false else .error e

/-! ## What an encoded key looks like -/

theorem b58Char_mem {d : Nat} (h : d < 58) : b58Char d ∈ b58Alphabet := by
  have hlen : d < b58Alphabet.length := Nat.lt_of_lt_of_eq h (by decide)
  rw [b58Char, List.getD_eq_getElem _ _ hlen]
  exact List.getElem_mem hlen

theorem mem_b58encode {data : Bytes} {c : CodePoint} (h : c ∈ b58encode data) :
    c ∈ b58Alphabet := by
  rw [b58encode, List.mem_reverse, List.mem_append, List.mem_map, List.mem_map] at h
  rcases h with ⟨d, hd, rfl⟩ | ⟨_, -, rfl⟩
  · exact b58Char_mem (Nat.digits_lt_base (by decide) hd)
  · exact b58Char_mem (by decide)

/-- Every character of a did:key is one of its prefix or of the alphabet. -/
theorem mem_encodeDidKey {key : Bytes} {did : PyStr} (h : encodeDidKey key = .ok did)
    {c : CodePoint} (hc : c ∈ did) : c ∈ DID_PREFIX ++ MULTIBASE_BASE58BTC ++ b58Alphabet := by
  unfold encodeDidKey at h
  split at h
  · cases h
  · cases h
    rcases List.mem_append.mp hc with hc | hc
    · exact List.mem_append_left _ hc
    · exact List.mem_append_right _ (mem_b58encode hc)

/-! ## Base58 is a recoding -/

/-- `_B58_INDEX[c]`. -/
def b58Index (c : CodePoint) : Nat := b58Alphabet.idxOf c

theorem b58Alphabet_length : b58Alphabet.length = 58 := by decide

theorem b58Index_lt {c : CodePoint} (h : c ∈ b58Alphabet) : b58Index c < 58 := by
  rw [b58Index, ← b58Alphabet_length]
  exact List.idxOf_lt_length_iff.mpr h

theorem b58Char_b58Index {c : CodePoint} (h : c ∈ b58Alphabet) : b58Char (b58Index c) = c := by
  have hlt : b58Alphabet.idxOf c < b58Alphabet.length := List.idxOf_lt_length_iff.mpr h
  rw [b58Char, b58Index, List.getD_eq_getElem _ _ hlt, List.getElem_idxOf]

theorem b58Index_b58Char {d : Nat} (h : d < 58) : b58Index (b58Char d) = d := by
  have key : ∀ d, d < 58 → b58Alphabet.idxOf (b58Alphabet.getD d (cp '1')) = d := by decide
  exact key d h

theorem b58Index_eq_zero {c : CodePoint} (h : c ∈ b58Alphabet) : b58Index c = 0 ↔ c = cp '1' := by
  constructor
  · intro h0
    rw [← b58Char_b58Index h, h0]
    decide
  · rintro rfl
    decide

theorem intFromBytes_eq_value (data : Bytes) :
    intFromBytes data = Radix.value 256 (data.map UInt8.toNat) := by
  rw [intFromBytes, Radix.value, List.foldl_map]

theorem takeWhile_map_toNat (data : Bytes) :
    (data.map UInt8.toNat).takeWhile (fun d => d == 0) =
      (data.takeWhile fun b => b == 0).map UInt8.toNat := by
  rw [List.takeWhile_map]
  congr 2
  funext b
  rw [Function.comp_apply, Bool.eq_iff_iff, beq_iff_eq, beq_iff_eq, ← UInt8.toNat_inj]
  rfl

/-- Encoding recodes the bytes. -/
theorem b58encode_eq_recode (data : Bytes) :
    b58encode data = (Radix.recode 256 58 (data.map UInt8.toNat)).map b58Char := by
  have hzeros : ((data.takeWhile fun b => b == 0).map fun _ => b58Char 0).reverse =
      ((data.takeWhile fun b => b == 0).map UInt8.toNat).map b58Char := by
    have hrep : ((data.takeWhile fun b => b == 0).map UInt8.toNat).map b58Char =
        (data.takeWhile fun b => b == 0).map fun _ => b58Char 0 := by
      rw [List.map_map]
      refine List.map_congr_left fun b hb => ?_
      have hb0 : b = 0 := by simpa using List.mem_takeWhile_imp hb
      rw [hb0]
      rfl
    rw [hrep, List.map_const', List.reverse_replicate]
  rw [b58encode, List.reverse_append, hzeros, Radix.recode, List.map_append, takeWhile_map_toNat,
    ← intFromBytes_eq_value, Radix.minimal, List.map_reverse]

theorem b58Value_eq {text : PyStr} (h : ∀ c ∈ text, c ∈ b58Alphabet) (n : Nat) :
    b58Value n text = .ok ((text.map b58Index).foldl (fun n d => n * 58 + d) n) := by
  induction text generalizing n with
  | nil => rfl
  | cons c text ih =>
    rw [b58Value, if_pos (h c List.mem_cons_self), ih fun d hd => h d (List.mem_cons_of_mem _ hd)]
    rfl

theorem mem_of_b58Value {text : PyStr} {n m : Nat} (h : b58Value n text = .ok m) :
    ∀ c ∈ text, c ∈ b58Alphabet := by
  induction text generalizing n with
  | nil => nofun
  | cons c text ih =>
    rw [b58Value] at h
    split at h
    · rename_i hc
      intro d hd
      rcases List.mem_cons.mp hd with rfl | hd
      · exact hc
      · exact ih h d hd
    · cases h

/-- **What decoding does**: it accepts the non-empty texts over the alphabet, and recodes them. -/
theorem b58decode_eq_ok {text : PyStr} {data : Bytes} :
    b58decode text = .ok data ↔ text ≠ [] ∧ (∀ c ∈ text, c ∈ b58Alphabet) ∧
      data = (Radix.recode 58 256 (text.map b58Index)).map UInt8.ofNat := by
  have hascii : ∀ c ∈ b58Alphabet, ¬ 0x80 ≤ c.val := by decide
  have hvalue : (∀ c ∈ text, c ∈ b58Alphabet) →
      ((text.takeWhile fun c => c == cp '1').map fun _ => (0 : UInt8)) ++
        minimalBytes (Radix.value 58 (text.map b58Index)) =
          (Radix.recode 58 256 (text.map b58Index)).map UInt8.ofNat := by
    intro hmem
    have hones : ((text.map b58Index).takeWhile fun d => d == 0).map UInt8.ofNat =
        (text.takeWhile fun c => c == cp '1').map fun _ => (0 : UInt8) := by
      clear hascii
      induction text with
      | nil => rfl
      | cons c text ih =>
        have hc := b58Index_eq_zero (hmem c List.mem_cons_self)
        rw [List.map_cons]
        by_cases h1 : c = cp '1'
        · rw [List.takeWhile_cons_of_pos (by simpa using hc.mpr h1),
            List.takeWhile_cons_of_pos (by simpa using h1), List.map_cons, List.map_cons, hc.mpr h1,
            ih fun d hd => hmem d (List.mem_cons_of_mem _ hd)]
          rfl
        · rw [List.takeWhile_cons_of_neg (by simpa using fun h0 => h1 (hc.mp h0)),
            List.takeWhile_cons_of_neg (by simpa using h1)]
          rfl
    rw [Radix.recode, List.map_append, hones, minimalBytes, Radix.minimal, List.map_reverse]
  unfold b58decode
  split
  · rename_i hnil
    exact iff_of_false (fun h => by cases h) fun h => h.1 hnil
  split
  · rename_i hany
    obtain ⟨c, hc, hge⟩ := List.any_eq_true.mp hany
    exact iff_of_false (fun h => by cases h) fun h => hascii c (h.2.1 c hc) (of_decide_eq_true hge)
  · rename_i hne _
    simp only [bind_eq_ok, pure, Except.pure, Except.ok.injEq]
    constructor
    · rintro ⟨n, hn, rfl⟩
      have hmem := mem_of_b58Value hn
      rw [b58Value_eq hmem] at hn
      cases hn
      exact ⟨hne, hmem, hvalue hmem⟩
    · rintro ⟨-, hmem, rfl⟩
      exact ⟨_, b58Value_eq hmem 0, hvalue hmem⟩

theorem map_toNat_ofNat {ds : List Nat} (h : ∀ d ∈ ds, d < 256) :
    (ds.map UInt8.ofNat).map UInt8.toNat = ds := by
  rw [List.map_map]
  conv_rhs => rw [← List.map_id ds]
  exact List.map_congr_left fun d hd => UInt8.toNat_ofNat_of_lt' (h d hd)

/-- Decoding undoes encoding, leading zero bytes included. -/
theorem b58decode_b58encode {data : Bytes} (hne : data ≠ []) :
    b58decode (b58encode data) = .ok data := by
  have hlt : ∀ d ∈ data.map UInt8.toNat, d < 256 := by
    intro d hd
    obtain ⟨b, -, rfl⟩ := List.mem_map.mp hd
    exact b.toNat_lt
  have hindex : ((Radix.recode 256 58 (data.map UInt8.toNat)).map b58Char).map b58Index =
      Radix.recode 256 58 (data.map UInt8.toNat) := by
    rw [List.map_map]
    conv_rhs => rw [← List.map_id (Radix.recode 256 58 _)]
    exact List.map_congr_left fun d hd => b58Index_b58Char (Radix.lt_of_mem_recode (by decide) hd)
  have hback : data = (Radix.recode 58 256 ((b58encode data).map b58Index)).map UInt8.ofNat := by
    rw [b58encode_eq_recode, hindex, Radix.recode_recode (by decide) hlt, List.map_map]
    conv_lhs => rw [← List.map_id data]
    exact List.map_congr_left fun b _ => UInt8.toNat_inj.mp (by simp)
  refine b58decode_eq_ok.mpr ⟨?_, fun c hc => mem_b58encode hc, hback⟩
  intro hnil
  rw [hnil] at hback
  exact hne hback

/-- Encoding undoes decoding, leading ones included. -/
theorem b58encode_of_b58decode {text : PyStr} {data : Bytes} (h : b58decode text = .ok data) :
    b58encode data = text := by
  obtain ⟨-, hmem, rfl⟩ := b58decode_eq_ok.mp h
  have hlt : ∀ d ∈ text.map b58Index, d < 58 := by
    intro d hd
    obtain ⟨c, hc, rfl⟩ := List.mem_map.mp hd
    exact b58Index_lt (hmem c hc)
  rw [b58encode_eq_recode, map_toNat_ofNat fun d hd => Radix.lt_of_mem_recode (by decide) hd,
    Radix.recode_recode (by decide) hlt, List.map_map]
  conv_rhs => rw [← List.map_id text]
  exact List.map_congr_left fun c hc => b58Char_b58Index (hmem c hc)

/-! ## did:key is a bijection -/

theorem encodeDidKey_eq_ok {key : Bytes} {did : PyStr} :
    encodeDidKey key = .ok did ↔ key.length = ED25519_PUBLIC_KEY_LENGTH ∧
      did = DID_PREFIX ++ MULTIBASE_BASE58BTC ++ b58encode (ED25519_MULTICODEC ++ key) := by
  unfold encodeDidKey
  split
  · rename_i h
    exact iff_of_false nofun fun hk => h hk.1
  · rename_i h
    rw [Except.ok.injEq, eq_comm]
    exact (and_iff_right (not_not.mp h)).symm

/-- What decoding accepts: the prefixes, and base58 of the multicodec and 32 bytes. -/
theorem decodeDidKey_eq_ok {did : PyStr} {key : Bytes} :
    decodeDidKey did = .ok key ↔ ∃ text, did = DID_PREFIX ++ MULTIBASE_BASE58BTC ++ text ∧
      b58decode text = .ok (ED25519_MULTICODEC ++ key) ∧ key.length = ED25519_PUBLIC_KEY_LENGTH := by
  unfold decodeDidKey
  split
  · rename_i h
    refine iff_of_false nofun ?_
    rintro ⟨text, rfl, -⟩
    exact h ⟨MULTIBASE_BASE58BTC ++ text, (List.append_assoc ..).symm⟩
  · rename_i h
    obtain ⟨body, rfl⟩ := not_not.mp h
    rw [List.drop_left]
    dsimp only
    split
    · rename_i hz
      refine iff_of_false nofun ?_
      rintro ⟨text, heq, -⟩
      rw [List.append_assoc] at heq
      exact hz ⟨text, (List.append_cancel_left heq).symm⟩
    · rename_i hz
      obtain ⟨text, rfl⟩ := not_not.mp hz
      have hdrop : (MULTIBASE_BASE58BTC ++ text).drop 1 = text := rfl
      rw [hdrop]
      simp only [bind_eq_ok]
      constructor
      · rintro ⟨decoded, hd, hrest⟩
        split at hrest
        · cases hrest
        · rename_i hcodec
          obtain ⟨k, rfl⟩ := not_not.mp hcodec
          rw [List.drop_left] at hrest
          split at hrest
          · cases hrest
          · rename_i hlen
            cases hrest
            exact ⟨text, (List.append_assoc ..).symm, hd, not_not.mp hlen⟩
      · rintro ⟨t, heq, hd, hlen⟩
        rw [List.append_assoc] at heq
        obtain rfl := List.append_cancel_left (List.append_cancel_left heq)
        refine ⟨_, hd, ?_⟩
        rw [if_neg (not_not.mpr (List.prefix_append _ _)), List.drop_left, if_neg (not_not.mpr hlen)]
        rfl

/-- **did:key is a bijection** between the 32-byte keys and the strings that are accepted. -/
theorem decodeDidKey_iff_encodeDidKey {did : PyStr} {key : Bytes} :
    decodeDidKey did = .ok key ↔ encodeDidKey key = .ok did := by
  rw [decodeDidKey_eq_ok, encodeDidKey_eq_ok]
  constructor
  · rintro ⟨text, rfl, hd, hlen⟩
    exact ⟨hlen, by rw [b58encode_of_b58decode hd]⟩
  · rintro ⟨hlen, rfl⟩
    exact ⟨_, rfl, b58decode_b58encode (List.cons_ne_nil _ _), hlen⟩

/-! ## What decoding raises -/

/-- The right prefixes, and a character outside ASCII behind them. -/
def NonAsciiBody (did : PyStr) : Prop :=
  ∃ text, did = DID_PREFIX ++ MULTIBASE_BASE58BTC ++ text ∧ ∃ c ∈ text, 0x80 ≤ c.val

theorem b58Value_error {text : PyStr} {n : Nat} {e : Exc} (h : b58Value n text = .error e) :
    e.cls = .didKeyError := by
  induction text generalizing n with
  | nil => cases h
  | cons c text ih =>
    rw [b58Value] at h
    split at h
    · exact ih h
    · cases h
      rfl

/-- Everything decoding refuses, it refuses with `DidKeyError`, but for a character outside ASCII. -/
theorem decodeDidKey_error {did : PyStr} {e : Exc} (h : decodeDidKey did = .error e) :
    (e.cls = .didKeyError ∧ ¬ NonAsciiBody did) ∨ (e.cls = .unicodeEncodeError ∧ NonAsciiBody did) := by
  unfold decodeDidKey at h
  split at h
  · rename_i hpre
    cases h
    refine Or.inl ⟨rfl, ?_⟩
    rintro ⟨text, rfl, -⟩
    exact hpre ⟨MULTIBASE_BASE58BTC ++ text, (List.append_assoc ..).symm⟩
  · rename_i hpre
    obtain ⟨body, rfl⟩ := not_not.mp hpre
    rw [List.drop_left] at h
    dsimp only at h
    split at h
    · rename_i hz
      cases h
      refine Or.inl ⟨rfl, ?_⟩
      rintro ⟨text, heq, -⟩
      rw [List.append_assoc] at heq
      exact hz ⟨text, (List.append_cancel_left heq).symm⟩
    · rename_i hz
      obtain ⟨text, rfl⟩ := not_not.mp hz
      have hdrop : (MULTIBASE_BASE58BTC ++ text).drop 1 = text := rfl
      have hbody : NonAsciiBody (DID_PREFIX ++ (MULTIBASE_BASE58BTC ++ text)) ↔
          ∃ c ∈ text, 0x80 ≤ c.val := by
        constructor
        · rintro ⟨t, heq, hc⟩
          rw [List.append_assoc] at heq
          rwa [List.append_cancel_left (List.append_cancel_left heq)]
        · intro hc
          exact ⟨text, (List.append_assoc ..).symm, hc⟩
      rw [hbody]
      rw [hdrop, bind_eq_error] at h
      rcases h with h | ⟨decoded, hd, h⟩
      · unfold b58decode at h
        split at h
        · rename_i hnil
          cases h
          rw [hnil]
          exact Or.inl ⟨rfl, fun ⟨_, hc, _⟩ => List.not_mem_nil hc⟩
        split at h
        · rename_i hany
          cases h
          obtain ⟨c, hc, hge⟩ := List.any_eq_true.mp hany
          exact Or.inr ⟨rfl, c, hc, of_decide_eq_true hge⟩
        · rename_i hany
          rw [bind_eq_error] at h
          rcases h with h | ⟨n, -, h⟩
          · refine Or.inl ⟨b58Value_error h, fun ⟨c, hc, hge⟩ => hany ?_⟩
            exact List.any_eq_true.mpr ⟨c, hc, decide_eq_true hge⟩
          · cases h
      · -- past base58 the text was ASCII
        have hascii : ∀ c ∈ b58Alphabet, ¬ 0x80 ≤ c.val := by decide
        have hmem := (b58decode_eq_ok.mp hd).2.1
        refine Or.inl ⟨?_, fun ⟨c, hc, hge⟩ => hascii c (hmem c hc) hge⟩
        split at h
        · cases h
          rfl
        · split at h
          · cases h
            rfl
          · cases h

theorem decodeDidKey_nonAscii {did : PyStr} (h : NonAsciiBody did) :
    ∃ e, decodeDidKey did = .error e ∧ e.cls = .unicodeEncodeError := by
  cases hd : decodeDidKey did with
  | ok key =>
    obtain ⟨text, rfl, hdec, -⟩ := decodeDidKey_eq_ok.mp hd
    obtain ⟨t, heq, c, hc, hge⟩ := h
    rw [List.append_cancel_left heq] at hdec
    have hascii : ∀ c ∈ b58Alphabet, ¬ 0x80 ≤ c.val := by decide
    exact absurd hge (hascii c ((b58decode_eq_ok.mp hdec).2.1 c hc))
  | error e =>
    rcases decodeDidKey_error hd with ⟨-, hno⟩ | ⟨hcls, -⟩
    · exact absurd h hno
    · exact ⟨e, rfl, hcls⟩

theorem isValidDidKey_isOk_iff {did : PyStr} :
    (∃ b, isValidDidKey did = .ok b) ↔ ¬ NonAsciiBody did := by
  unfold isValidDidKey
  cases hd : decodeDidKey did with
  | ok key =>
    refine iff_of_true ⟨true, rfl⟩ fun hbody => ?_
    obtain ⟨e, he, -⟩ := decodeDidKey_nonAscii hbody
    rw [hd] at he
    cases he
  | error e =>
    rcases decodeDidKey_error hd with ⟨hcls, hno⟩ | ⟨hcls, hbody⟩
    · exact iff_of_true ⟨false, if_pos hcls⟩ hno
    · refine iff_of_false ?_ (not_not.mpr hbody)
      rintro ⟨b, hb⟩
      dsimp only at hb
      rw [if_neg (by rw [hcls]; decide)] at hb
      cases hb

end FlopOffice.Identity
