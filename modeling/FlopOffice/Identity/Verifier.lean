/-
# FlopOffice.Identity.Verifier — signature texts, and verification.

A signature is 64 raw bytes as 86 unpadded base64url characters. Decoding goes through
`base64.urlsafe_b64decode`, whose lenient loop is modelled as it is: characters outside the alphabet
are skipped, padding ends the input once a group is full.

Ed25519 itself is a third-party library: the class `Ed25519` is all the model takes from it.
-/
import FlopOffice.Identity.Canonical
import FlopOffice.Identity.Did
import FlopOffice.Python.Hashlib

namespace FlopOffice.Identity

open FlopOffice.Python

/-! ## Signature texts -/

def SIGNATURE_BYTES : Nat := 64
def SIGNATURE_CHARS : Nat := 86

/-- Encode a raw Ed25519 signature as unpadded base64url. -/
def encodeSignature (raw : Bytes) : Except Exc PyStr :=
  if raw.length ≠ SIGNATURE_BYTES then
    .error ⟨.signatureError, py "signature must be exactly 64 raw bytes"⟩
  else
    let text := base64Unpadded raw
    if text.length ≠ SIGNATURE_CHARS then
      .error ⟨.signatureError, py "encoded signature is " ++ decimalDigits text.length ++
        py " chars, expected 86"⟩
    else .ok text

/-- The value of a base64 digit, after `-` and `_` were translated to `+` and `/`. -/
def base64Value (c : CodePoint) : Option Nat :=
  let c := if c = cp '-' then cp '+' else if c = cp '_' then cp '/' else c
  let alphabet := base64Alphabet.take 62 ++ py "+/"
  if c ∈ alphabet then some (alphabet.idxOf c) else none

/-- The loop of `binascii.a2b_base64` in its lenient mode; `left` holds the bits of the group of four
digits that are not yet in a byte. -/
def a2bBase64 (quadPos left pads : Nat) : PyStr → Except Exc Bytes
  | [] => if quadPos = 0 then .ok [] else .error ⟨.valueError, []⟩
  | c :: rest =>
    if c = cp '=' then
      if quadPos ≥ 2 then
        if quadPos + (pads + 1) ≥ 4 then .ok [] else a2bBase64 quadPos left (pads + 1) rest
      else a2bBase64 quadPos left pads rest
    else match base64Value c with
      | none => a2bBase64 quadPos left pads rest
      | some v =>
        match quadPos with
        | 0 => a2bBase64 1 v 0 rest
        | 1 => (a2bBase64 2 (v % 16) 0 rest).map (UInt8.ofNat (left * 4 + v / 16) :: ·)
        | 2 => (a2bBase64 3 (v % 4) 0 rest).map (UInt8.ofNat (left * 16 + v / 4) :: ·)
        | _ => (a2bBase64 0 0 0 rest).map (UInt8.ofNat (left * 64 + v) :: ·)

/-- `base64.urlsafe_b64decode` of a string. -/
def urlsafeB64decode (text : PyStr) : Except Exc Bytes :=
  if text.any fun c => 0x80 ≤ c.val then .error ⟨.valueError, []⟩ else a2bBase64 0 0 0 text

/-- Decode an 86-character unpadded base64url signature. -/
def decodeSignature (text : PyStr) : Except Exc Bytes :=
  if text.length ≠ SIGNATURE_CHARS then
    .error ⟨.signatureError, py "signature must be 86 characters, got " ++
      decimalDigits text.length⟩
  else if cp '=' ∈ text then .error ⟨.signatureError, py "signature must be unpadded base64url"⟩
  else match urlsafeB64decode (text ++ py "==") with
    | .error _ => .error ⟨.signatureError, py "signature is not valid base64url"⟩
    | .ok raw =>
      if raw.length ≠ SIGNATURE_BYTES then
        .error ⟨.signatureError, py "decoded signature is " ++ decimalDigits raw.length ++
          py " bytes, expected 64"⟩
      else .ok raw

/-! ## Verification -/

/-- `Ed25519PublicKey.verify`: the key accepts the raw signature over the payload. -/
class Ed25519 where
  verify : (publicKey raw payload : Bytes) → Bool

section Verify

variable [Ed25519]

/-- Whether `signature` is a valid Ed25519 signature by `did`. Malformed keys and signatures are
answered with `False`; what else decoding raises is not caught. -/
def verify (did signature : PyStr) (payload : Bytes) : Except Exc Bool :=
  let parts : Except Exc (Bytes × Bytes) := do
    let publicKey ← decodeDidKey did
    let raw ← decodeSignature signature
    pure (publicKey, raw)
  match parts with
  | .ok (publicKey, raw) => .ok (Ed25519.verify publicKey raw payload)
  | .error e =>
    if e.cls = .didKeyError ∨ e.cls = .signatureError then .ok false else .error e

/-- Verify a room message by rebuilding the canonical payload. -/
def verifyMessage (did signature room : PyStr) (nonce : PyInt) (text : PyStr) : Except Exc Bool :=
  match messagePayload room nonce text with
  | .ok payload => verify did signature payload
  | .error e => if e.cls.isValueError then .ok false else .error e

/-- Verify a note. -/
def verifyNote [PyRuntime] (did signature namespace_ key : PyStr) (nonce : PyInt) (value : PyStr) :
    Except Exc Bool :=
  match notePayload namespace_ key nonce value with
  | .ok payload => verify did signature payload
  | .error e => if e.cls.isValueError then .ok false else .error e

/-- A note verifies exactly if it has a payload and the payload does. -/
theorem verifyNote_eq_true [PyRuntime] {did signature namespace_ key value : PyStr} {nonce : PyInt} :
    verifyNote did signature namespace_ key nonce value = .ok true ↔
      ∃ payload, notePayload namespace_ key nonce value = .ok payload ∧
        verify did signature payload = .ok true := by
  unfold verifyNote
  cases notePayload namespace_ key nonce value with
  | ok payload => simp
  | error e =>
    simp only [reduceCtorEq, false_and, exists_false, iff_false]
    split <;> simp

end Verify

/-! ## What an encoded signature looks like -/

theorem encodeSignature_eq_ok {raw : Bytes} {text : PyStr} :
    encodeSignature raw = .ok text ↔ raw.length = SIGNATURE_BYTES ∧ text = base64Unpadded raw := by
  unfold encodeSignature
  split
  · rename_i h
    simp [h]
  · rename_i h
    have hlen : (base64Unpadded raw).length = SIGNATURE_CHARS := by
      rw [base64Unpadded_length, not_not.mp h]
      rfl
    rw [if_neg (not_not.mpr hlen), not_not.mp h]
    simp [eq_comm]

/-! ## A signature text decodes to its bytes -/

theorem base64Value_digit (n : Nat) : base64Value (base64Digit n) = some (n % 64) := by
  have key : ∀ k, k < 64 → base64Value (base64Alphabet.getD k (cp 'A')) = some k := by decide
  exact key _ (Nat.mod_lt _ (by decide))

theorem base64Digit_ne_pad (n : Nat) : base64Digit n ≠ cp '=' := by
  have hpad : cp '=' ∉ base64Alphabet := by decide
  exact fun h => hpad (h ▸ base64Digit_mem n)

theorem a2bBase64_digit (quadPos left pads n : Nat) (rest : PyStr) :
    a2bBase64 quadPos left pads (base64Digit n :: rest) =
      match quadPos with
      | 0 => a2bBase64 1 (n % 64) 0 rest
      | 1 => (a2bBase64 2 (n % 64 % 16) 0 rest).map (UInt8.ofNat (left * 4 + n % 64 / 16) :: ·)
      | 2 => (a2bBase64 3 (n % 64 % 4) 0 rest).map (UInt8.ofNat (left * 16 + n % 64 / 4) :: ·)
      | _ => (a2bBase64 0 0 0 rest).map (UInt8.ofNat (left * 64 + n % 64) :: ·) := by
  rw [a2bBase64, if_neg (base64Digit_ne_pad n), base64Value_digit]

theorem ofNat_of_eq {b : UInt8} {m : Nat} (h : m = b.toNat) : UInt8.ofNat m = b := by
  rw [h, UInt8.ofNat_toNat]

/-- One byte more than whole groups of three: the length of a signature. -/
theorem a2bBase64_base64Unpadded {raw : Bytes} (h : raw.length % 3 = 1) :
    a2bBase64 0 0 0 (base64Unpadded raw ++ py "==") = .ok raw := by
  induction raw using base64Unpadded.induct with
  | case1 a b c rest ih =>
    have ha := a.toNat_lt
    have hb := b.toNat_lt
    have hc := c.toNat_lt
    rw [List.length_cons, List.length_cons, List.length_cons] at h
    simp only [base64Unpadded, List.cons_append, a2bBase64_digit, ih (by omega), Except.map]
    rw [ofNat_of_eq (b := a) (by omega), ofNat_of_eq (b := b) (by omega),
      ofNat_of_eq (b := c) (by omega)]
  | case2 a b =>
    rw [List.length_cons, List.length_cons, List.length_nil] at h
    omega
  | case3 a =>
    have ha := a.toNat_lt
    have hpads : ∀ left, a2bBase64 2 left 0 (py "==") = .ok [] := fun _ => rfl
    simp only [base64Unpadded, List.cons_append, List.nil_append, a2bBase64_digit, hpads, Except.map]
    rw [ofNat_of_eq (b := a) (by omega)]
  | case4 => cases h

/-- **Decoding undoes encoding**, for signatures. -/
theorem decodeSignature_of_encodeSignature {raw : Bytes} {text : PyStr}
    (h : encodeSignature raw = .ok text) : decodeSignature text = .ok raw := by
  obtain ⟨hlen, rfl⟩ := encodeSignature_eq_ok.mp h
  have hchars : ∀ c ∈ base64Alphabet ++ py "==", ¬ 0x80 ≤ c.val := by decide
  have hpad : cp '=' ∉ base64Unpadded raw := by
    have hno : cp '=' ∉ base64Alphabet := by decide
    exact fun hc => hno (mem_base64Alphabet hc)
  have hascii : (base64Unpadded raw ++ py "==").any (fun c => 0x80 ≤ c.val) = false := by
    rw [List.any_eq_false]
    intro c hc hge
    refine hchars c ?_ (of_decide_eq_true hge)
    exact List.mem_append.mpr ((List.mem_append.mp hc).imp_left mem_base64Alphabet)
  have hdecode : urlsafeB64decode (base64Unpadded raw ++ py "==") = .ok raw := by
    rw [urlsafeB64decode, hascii]
    exact a2bBase64_base64Unpadded (by rw [hlen]; rfl)
  have hsize : (base64Unpadded raw).length = SIGNATURE_CHARS := by
    rw [base64Unpadded_length, hlen]
    rfl
  rw [decodeSignature, if_neg (not_not.mpr hsize), if_neg hpad, hdecode]
  exact if_neg (not_not.mpr hlen)

/-! ## What verification raises -/

theorem decodeSignature_error {text : PyStr} {e : Exc} (h : decodeSignature text = .error e) :
    e.cls = .signatureError := by
  unfold decodeSignature at h
  split at h
  · cases h
    rfl
  split at h
  · cases h
    rfl
  split at h
  · cases h
    rfl
  split at h
  · cases h
    rfl
  · cases h

/-- What a builder of payloads raises, its callers catch. -/
theorem isValueError_of_strInt {i : Int} {e : Exc} (h : strInt i = .error e) :
    e.cls.isValueError = true := by
  rw [strInt_error h]
  rfl

theorem isValueError_of_utf8 {s : PyStr} {e : Exc} (h : utf8 s = .error e) :
    e.cls.isValueError = true := by
  rw [utf8_error h]
  rfl

theorem isValueError_of_validateNonce {nonce : PyInt} {e : Exc} (h : validateNonce nonce = .error e) :
    e.cls.isValueError = true := by
  unfold validateNonce at h
  split at h
  · cases h
    rfl
  · split at h
    · cases h
      rfl
    · rcases bind_eq_error.mp h with h | ⟨_, -, h⟩
      · exact isValueError_of_strInt h
      · split at h <;> cases h
        rfl

theorem isValueError_of_requireNonEmpty {swept : PyStr} {e : Exc}
    (h : requireNonEmpty swept = .error e) : e.cls.isValueError = true := by
  unfold requireNonEmpty at h
  split at h <;> cases h
  rfl

theorem isValueError_of_messagePayload {room text : PyStr} {nonce : PyInt} {policy : SweepPolicy}
    {swept : Bool} {e : Exc} (h : messagePayload room nonce text policy swept = .error e) :
    e.cls.isValueError = true := by
  unfold messagePayload at h
  rcases bind_eq_error.mp h with h | ⟨_, -, h⟩
  · unfold validateRoom at h
    repeat' split at h
    all_goals first | cases h; rfl | cases h
  rcases bind_eq_error.mp h with h | ⟨_, -, h⟩
  · exact isValueError_of_validateNonce h
  rcases bind_eq_error.mp h with h | ⟨_, -, h⟩
  · exact isValueError_of_requireNonEmpty h
  split at h
  · cases h
    rfl
  rcases bind_eq_error.mp h with h | ⟨_, -, h⟩
  · exact isValueError_of_strInt h
  · exact isValueError_of_utf8 h

theorem isValueError_of_notePayload [PyRuntime] {namespace_ key value : PyStr} {nonce : PyInt}
    {policy : SweepPolicy} {swept : Bool} {e : Exc}
    (h : notePayload namespace_ key nonce value policy swept = .error e) :
    e.cls.isValueError = true := by
  have hname : ∀ s kind, validateName s kind = .error e → e.cls.isValueError = true := by
    intro s kind hs
    unfold validateName at hs
    split at hs <;> cases hs
    rfl
  unfold notePayload at h
  rcases bind_eq_error.mp h with h | ⟨_, -, h⟩
  · exact hname _ _ h
  rcases bind_eq_error.mp h with h | ⟨_, -, h⟩
  · exact hname _ _ h
  rcases bind_eq_error.mp h with h | ⟨_, -, h⟩
  · exact isValueError_of_validateNonce h
  rcases bind_eq_error.mp h with h | ⟨_, -, h⟩
  · exact isValueError_of_requireNonEmpty h
  rcases bind_eq_error.mp h with h | ⟨_, -, h⟩
  · exact isValueError_of_strInt h
  rcases bind_eq_error.mp h with h | ⟨_, -, h⟩
  · exact isValueError_of_utf8 h
  rcases bind_eq_error.mp h with h | ⟨_, -, h⟩
  · exact isValueError_of_utf8 h
  split at h <;> cases h
  rfl

section Totality

variable [Ed25519]

/-- What verifies: a key, a signature, and a payload that the key accepts it for. -/
theorem verify_eq_true {did sig : PyStr} {payload : Bytes} :
    verify did sig payload = .ok true ↔ ∃ key raw, decodeDidKey did = .ok key ∧
      decodeSignature sig = .ok raw ∧ Ed25519.verify key raw payload = true := by
  have hraised : ∀ e : Exc, (if e.cls = .didKeyError ∨ e.cls = .signatureError then Except.ok false
      else Except.error e) ≠ .ok true := by
    intro e h
    split at h
    · cases h
    · cases h
  unfold verify
  constructor
  · intro h
    cases hkey : decodeDidKey did with
    | error e =>
      rw [hkey] at h
      exact absurd h (hraised e)
    | ok key =>
      rw [hkey] at h
      cases hraw : decodeSignature sig with
      | error e =>
        rw [hraw] at h
        exact absurd h (hraised e)
      | ok raw =>
        rw [hraw] at h
        exact ⟨key, raw, rfl, rfl, Except.ok.inj h⟩
  · rintro ⟨key, raw, hkey, hraw, hv⟩
    rw [hkey, hraw]
    exact congrArg Except.ok hv

/-- `verify` answers unless decoding the did raises something else than `DidKeyError`. -/
theorem verify_isOk_iff {did signature : PyStr} {payload : Bytes} :
    (∃ b, verify did signature payload = .ok b) ↔ ¬ NonAsciiBody did := by
  unfold verify
  cases hd : decodeDidKey did with
  | ok key =>
    have hno : ¬ NonAsciiBody did := fun hbody => by
      obtain ⟨e, he, -⟩ := decodeDidKey_nonAscii hbody
      rw [hd] at he
      cases he
    refine iff_of_true ?_ hno
    cases hs : decodeSignature signature with
    | ok raw => exact ⟨_, rfl⟩
    | error e => exact ⟨false, if_pos (Or.inr (decodeSignature_error hs))⟩
  | error e =>
    rcases decodeDidKey_error hd with ⟨hcls, hno⟩ | ⟨hcls, hbody⟩
    · exact iff_of_true ⟨false, if_pos (Or.inl hcls)⟩ hno
    · refine iff_of_false ?_ (not_not.mpr hbody)
      rintro ⟨b, hb⟩
      have hraise : ¬ (e.cls = .didKeyError ∨ e.cls = .signatureError) := by
        rw [hcls]
        decide
      replace hb : (if e.cls = .didKeyError ∨ e.cls = .signatureError then Except.ok false
        else Except.error e) = .ok b := hb
      rw [if_neg hraise] at hb
      cases hb

/-- A string that is no did:key verifies nothing. -/
theorem verify_of_not_did {did signature : PyStr} {payload : Bytes} (hno : ¬ NonAsciiBody did)
    (h : ∀ key, decodeDidKey did ≠ .ok key) : verify did signature payload = .ok false := by
  unfold verify
  cases hd : decodeDidKey did with
  | ok key => exact absurd hd (h key)
  | error e =>
    rcases decodeDidKey_error hd with ⟨hcls, -⟩ | ⟨-, hbody⟩
    · exact if_pos (Or.inl hcls)
    · exact absurd hbody hno

theorem verifyMessage_isOk_iff {did signature room text : PyStr} {nonce : PyInt} :
    (∃ b, verifyMessage did signature room nonce text = .ok b) ↔
      ¬ (NonAsciiBody did ∧ ∃ payload, messagePayload room nonce text = .ok payload) := by
  unfold verifyMessage
  cases hp : messagePayload room nonce text with
  | ok payload =>
    rw [and_iff_left ⟨payload, rfl⟩]
    exact verify_isOk_iff
  | error e =>
    refine iff_of_true ⟨false, if_pos (isValueError_of_messagePayload hp)⟩ ?_
    rintro ⟨-, payload, hpayload⟩
    cases hpayload

theorem verify_error {did signature : PyStr} {payload : Bytes} {e : Exc}
    (h : verify did signature payload = .error e) : e.cls = .unicodeEncodeError := by
  unfold verify at h
  cases hd : decodeDidKey did with
  | ok key =>
    rw [hd] at h
    cases hs : decodeSignature signature with
    | ok raw =>
      rw [hs] at h
      cases h
    | error e' =>
      rw [hs] at h
      replace h : (if e'.cls = .didKeyError ∨ e'.cls = .signatureError then Except.ok false
        else Except.error e') = .error e := h
      rw [if_pos (Or.inr (decodeSignature_error hs))] at h
      cases h
  | error e' =>
    rw [hd] at h
    replace h : (if e'.cls = .didKeyError ∨ e'.cls = .signatureError then Except.ok false
      else Except.error e') = .error e := h
    rcases decodeDidKey_error hd with ⟨hcls, -⟩ | ⟨hcls, -⟩
    · rw [if_pos (Or.inl hcls)] at h
      cases h
    · split at h
      · cases h
      · cases h
        exact hcls

theorem verifyMessage_error {did signature room text : PyStr} {nonce : PyInt} {e : Exc}
    (h : verifyMessage did signature room nonce text = .error e) : e.cls = .unicodeEncodeError := by
  unfold verifyMessage at h
  cases hp : messagePayload room nonce text with
  | ok payload =>
    rw [hp] at h
    exact verify_error h
  | error e' =>
    rw [hp] at h
    dsimp only at h
    rw [if_pos (isValueError_of_messagePayload hp)] at h
    cases h

theorem verifyNote_isOk_iff [PyRuntime] {did signature namespace_ key value : PyStr} {nonce : PyInt} :
    (∃ b, verifyNote did signature namespace_ key nonce value = .ok b) ↔
      ¬ (NonAsciiBody did ∧ ∃ payload, notePayload namespace_ key nonce value = .ok payload) := by
  unfold verifyNote
  cases hp : notePayload namespace_ key nonce value with
  | ok payload =>
    rw [and_iff_left ⟨payload, rfl⟩]
    exact verify_isOk_iff
  | error e =>
    refine iff_of_true ⟨false, if_pos (isValueError_of_notePayload hp)⟩ ?_
    rintro ⟨-, payload, hpayload⟩
    cases hpayload

/-- **When verification answers.** A did with a character outside ASCII behind its prefixes makes all
four functions raise, as soon as there is a payload to verify; for every other string they answer, and
a string that is no did:key is answered with `False`. -/
theorem verification_total_iff [PyRuntime] (did : PyStr) :
    ((∃ b, isValidDidKey did = .ok b) ↔ ¬ NonAsciiBody did) ∧
    (∀ signature payload, (∃ b, verify did signature payload = .ok b) ↔ ¬ NonAsciiBody did) ∧
    (∀ signature room nonce text, (∃ b, verifyMessage did signature room nonce text = .ok b) ↔
      ¬ (NonAsciiBody did ∧ ∃ payload, messagePayload room nonce text = .ok payload)) ∧
    (∀ signature namespace_ key nonce value,
      (∃ b, verifyNote did signature namespace_ key nonce value = .ok b) ↔
        ¬ (NonAsciiBody did ∧ ∃ payload, notePayload namespace_ key nonce value = .ok payload)) ∧
    (¬ NonAsciiBody did → (∀ key, decodeDidKey did ≠ .ok key) →
      isValidDidKey did = .ok false ∧ ∀ signature payload, verify did signature payload = .ok false) := by
  refine ⟨isValidDidKey_isOk_iff, fun _ _ => verify_isOk_iff, fun _ _ _ _ => verifyMessage_isOk_iff,
    fun _ _ _ _ _ => verifyNote_isOk_iff, fun hno hkey => ⟨?_, fun _ _ => verify_of_not_did hno hkey⟩⟩
  obtain ⟨b, hb⟩ := isValidDidKey_isOk_iff.mpr hno
  cases b with
  | false => exact hb
  | true =>
    unfold isValidDidKey at hb
    split at hb
    · rename_i key hd
      exact absurd hd (hkey key)
    · split at hb <;> cases hb

end Totality

section Accented

attribute [local instance] asciiRuntime

/-- An Ed25519 that accepts everything. -/
@[reducible] def acceptAll : Ed25519 := ⟨fun _ _ _ => true⟩

attribute [local instance] acceptAll

/-- **A did that raises**: the two prefixes and one letter outside ASCII. -/
theorem accented_did_raises :
    isValidDidKey (py "did:key:zé") = .error ⟨.unicodeEncodeError, []⟩ ∧
    (∀ signature payload, verify (py "did:key:zé") signature payload =
      .error ⟨.unicodeEncodeError, []⟩) ∧
    (∀ signature, verifyMessage (py "did:key:zé") signature (py "lobby") (.int 1) (py "hi") =
      .error ⟨.unicodeEncodeError, []⟩) ∧
    ∀ signature, verifyNote (py "did:key:zé") signature (py "ns") (py "key") (.int 1) (py "hi") =
      .error ⟨.unicodeEncodeError, []⟩ := by
  have hverify : ∀ signature payload, verify (py "did:key:zé") signature payload =
      .error ⟨.unicodeEncodeError, []⟩ := by
    intro signature payload
    have hd : decodeDidKey (py "did:key:zé") = .error ⟨.unicodeEncodeError, []⟩ := by decide
    rw [verify, hd]
    rfl
  obtain ⟨message, hmessage⟩ : ∃ p, messagePayload (py "lobby") (.int 1) (py "hi") = .ok p :=
    ⟨_, rfl⟩
  obtain ⟨note, hnote⟩ : ∃ p, notePayload (py "ns") (py "key") (.int 1) (py "hi") = .ok p :=
    ⟨_, rfl⟩
  refine ⟨by decide, hverify, fun signature => ?_, fun signature => ?_⟩
  · rw [verifyMessage, hmessage]
    exact hverify signature message
  · rw [verifyNote, hnote]
    exact hverify signature note

end Accented

end FlopOffice.Identity
