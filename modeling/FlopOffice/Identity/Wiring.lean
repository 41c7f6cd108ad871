/-
# FlopOffice.Identity.Wiring — handles, signers, and the check that a key is the expected one.

A `PrivateKeyHandle` is what the cryptography package makes of a private key: its public key, and raw
signatures. A signer encodes those signatures. `assert_key_matches_did` compares the key bytes and
then, in case two encodings of one key exist, the strings; did:key is a bijection
(`did_key_bijection`), so the second comparison decides nothing.
-/
import FlopOffice.Identity.Capability

namespace FlopOffice.Identity

open FlopOffice.Python

/-! ## Public identities -/

/-- `DidKey(did)`. -/
def DidKey.ofStr (did : PyStr) : Except Exc DidKey :=
  match h : decodeDidKey did with
  | .ok key => .ok ⟨did, key, h⟩
  | .error e => .error e

/-- `DidKey.public_key_bytes`. -/
def DidKey.publicKeyBytes (d : DidKey) : Bytes :=
  match decodeDidKey d.did with
  | .ok key => key
  | .error _ => []

theorem DidKey.decode (d : DidKey) : decodeDidKey d.did = .ok d.publicKeyBytes := by
  obtain ⟨key, hkey⟩ := d.valid
  rw [publicKeyBytes, hkey]

theorem DidKey.ofStr_eq_ok {did : PyStr} {d : DidKey} :
    DidKey.ofStr did = .ok d ↔ d.did = did := by
  unfold DidKey.ofStr
  split
  · rename_i key h
    rw [Except.ok.injEq]
    constructor
    · rintro rfl
      rfl
    · rintro rfl
      rfl
  · rename_i e h
    refine iff_of_false nofun ?_
    rintro rfl
    rw [d.decode] at h
    cases h

/-! ## Private keys -/

/-- An Ed25519 private key, as far as a handle lets it be used. -/
structure PrivateKeyHandle where
  publicKey : Bytes
  publicKey_length : publicKey.length = ED25519_PUBLIC_KEY_LENGTH
  rawSign : Bytes → Bytes
  rawSign_length : ∀ payload, (rawSign payload).length = SIGNATURE_BYTES

/-- Zeros have the length of a signature. -/
theorem zeros_length (_payload : Bytes) : (List.replicate 64 (0 : UInt8)).length = SIGNATURE_BYTES := rfl

/-- `handle.did`: `DidKey.from_public_bytes` of the public key. -/
def PrivateKeyHandle.did (handle : PrivateKeyHandle) : DidKey where
  did := DID_PREFIX ++ MULTIBASE_BASE58BTC ++ b58encode (ED25519_MULTICODEC ++ handle.publicKey)
  valid := ⟨handle.publicKey,
    decodeDidKey_iff_encodeDidKey.mpr (encodeDidKey_eq_ok.mpr ⟨handle.publicKey_length, rfl⟩)⟩

theorem PrivateKeyHandle.encode_did (handle : PrivateKeyHandle) :
    encodeDidKey handle.publicKey = .ok handle.did.did :=
  encodeDidKey_eq_ok.mpr ⟨handle.publicKey_length, rfl⟩

/-- Anything that produces a Technocore-shaped signature for a did. -/
structure Signer where
  did : DidKey
  sign : Bytes → Except Exc PyStr

/-- `EphemeralSigner(handle)`. -/
def ephemeralSigner (handle : PrivateKeyHandle) : Signer where
  did := handle.did
  sign payload := encodeSignature (handle.rawSign payload)

/-- `CapabilitySigner(signer, allow_notes=...)`. -/
def Signer.capability (signer : Signer) (allowNotes : Bool := false) : CapabilitySigner where
  sign := signer.sign
  did := signer.did
  allowNotes := allowNotes

/-! ## The identity check -/

/-- `assert_key_matches_did`; what is expected is a `DidKey` or a string. -/
def assertKeyMatchesDid (handle : PrivateKeyHandle) (expected : DidKey ⊕ PyStr) :
    Except Exc DidKey := do
  let want ← match expected with
    | .inl d => pure d
    | .inr s => DidKey.ofStr s
  let got := handle.did
  if got.publicKeyBytes ≠ want.publicKeyBytes then
    throw ⟨.didMismatchError, py "keystore does not hold the expected identity: the key derives " ++
      got.did ++ py ", but the configured ROOT_AGENT_DID is " ++ want.did ++
      py ". Refusing to sign. Check which keystore the path points at; do not " ++
      py "change the configured DID to match a key."⟩
  if got.did ≠ want.did then
    throw ⟨.didMismatchError, py "keystore key matches byte-for-byte but its did:key encoding differs (" ++
      got.did ++ py " vs " ++ want.did ++ py "); refusing to sign on an ambiguous encoding"⟩
  pure got

/-- A did is determined by its key. -/
theorem DidKey.eq_of_publicKeyBytes {d d' : DidKey} (h : d.publicKeyBytes = d'.publicKeyBytes) :
    d.did = d'.did := by
  have hd := decodeDidKey_iff_encodeDidKey.mp d.decode
  have hd' := decodeDidKey_iff_encodeDidKey.mp d'.decode
  rw [h, hd'] at hd
  exact (Except.ok.inj hd).symm

/-- The check accepts exactly the keys of the expected did. -/
theorem assertKeyMatchesDid_eq_ok {handle : PrivateKeyHandle} {want d : DidKey} :
    assertKeyMatchesDid handle (.inl want) = .ok d ↔
      d = handle.did ∧ handle.did.publicKeyBytes = want.publicKeyBytes := by
  simp only [assertKeyMatchesDid, pure_bind]
  split
  · rename_i hne
    exact iff_of_false nofun fun h => hne h.2
  · rename_i heq
    have hbytes := not_not.mp heq
    have hdid := DidKey.eq_of_publicKeyBytes hbytes
    rw [if_neg (not_not.mpr hdid)]
    show Except.ok handle.did = .ok d ↔ _
    rw [Except.ok.injEq, and_iff_left hbytes]
    exact eq_comm

/-- **did:key is a bijection.** Decoding gives a key exactly if the key has 32 bytes and the string is
its encoding; so dids with the same key are the same string, and the check of a handle against an
expected did accepts exactly those with the handle's key: its second comparison never fails. -/
theorem did_key_bijection :
    (∀ did key, decodeDidKey did = .ok key ↔
      key.length = ED25519_PUBLIC_KEY_LENGTH ∧ encodeDidKey key = .ok did) ∧
    (∀ did did' key, decodeDidKey did = .ok key → decodeDidKey did' = .ok key → did = did') ∧
    (∀ (handle : PrivateKeyHandle) (want : DidKey),
      handle.did.publicKeyBytes = want.publicKeyBytes → ¬ handle.did.did ≠ want.did) ∧
    ∀ (handle : PrivateKeyHandle) (want : DidKey), assertKeyMatchesDid handle (.inl want) =
      .ok handle.did ↔ handle.did.publicKeyBytes = want.publicKeyBytes := by
  refine ⟨fun did key => ?_, fun did did' key h h' => ?_, fun handle want h => ?_,
    fun handle want => ?_⟩
  · rw [decodeDidKey_iff_encodeDidKey, iff_and_self]
    exact fun h => (encodeDidKey_eq_ok.mp h).1
  · have he := decodeDidKey_iff_encodeDidKey.mp h
    rw [decodeDidKey_iff_encodeDidKey.mp h'] at he
    exact (Except.ok.inj he).symm
  · exact not_not.mpr (DidKey.eq_of_publicKeyBytes h)
  · exact assertKeyMatchesDid_eq_ok.trans (and_iff_right rfl)

theorem did_key_bijection_lobby :
    lobbySigner.did.did = DID_PREFIX ++ MULTIBASE_BASE58BTC ++
      b58encode (ED25519_MULTICODEC ++ (List.range 32).map fun i => UInt8.ofNat (i + 1)) :=
  did_key_bijection.2.1 _ _ ((List.range 32).map fun i => UInt8.ofNat (i + 1))
    (by decide +kernel) (by decide)

end FlopOffice.Identity
