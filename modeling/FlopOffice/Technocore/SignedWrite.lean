/-
# FlopOffice.Technocore.SignedWrite — signed writes, constructed but not sent.

A `SignedWrite` is a record anyone can fill in: nothing ties its `payload` to its other fields. What
`verifies` checks is the payload rebuilt from did, room, nonce and swept text.

`build_signed_message` is the constructor that does tie them. It, the capability signer and
`message_payload` sweep and check in three different orders; that they accept the same messages and
sign the same bytes is `signing_paths_agree`.
-/
import FlopOffice.Identity.Binding
import FlopOffice.Identity.Wiring

namespace FlopOffice.Technocore

open FlopOffice.Identity FlopOffice.Python

/-! ## Signed writes -/

/-- A signed write, not yet sent. -/
structure SignedWrite where
  did : PyStr
  room : PyStr
  nonce : PyInt
  text : PyStr
  sweptText : PyStr
  signature : PyStr
  payload : Bytes
  deriving DecidableEq

/-- GET path for the say-signed endpoint. -/
def SignedWrite.path (w : SignedWrite) : Except Exc PyStr := do
  let room ← encodePathSegment w.room
  let did ← encodePathSegment w.did
  let signature ← encodePathSegment w.signature
  let nonce ← w.nonce.str
  let text ← encodePathSegment w.sweptText
  pure (py "/r/" ++ room ++ py "/say-signed/" ++ did ++ py "/" ++ signature ++ py "/" ++ nonce ++
    py "/" ++ text)

/-- Does the signature verify against the payload rebuilt from the parts? -/
def SignedWrite.verifies [Ed25519] (w : SignedWrite) : Except Exc Bool :=
  verifyMessage w.did w.signature w.room w.nonce w.sweptText

/-- Construct a signed room message. -/
def buildSignedMessage [Ed25519] (signer : Signer) (room : PyStr) (nonce : PyInt) (text : PyStr) :
    Except Exc SignedWrite := do
  let room ← validateRoom room
  let nonce ← validateNonce nonce
  let swept := singleLineSweep text
  let payload ← messagePayload room (.int nonce) swept DEFAULT_SWEEP true
  let signature ← signer.sign payload
  let write : SignedWrite := ⟨signer.did.did, room, .int nonce, text, swept, signature, payload⟩
  let ok ← write.verifies
  if !ok then
    throw ⟨.technocoreError, py "constructed signature failed local verification; " ++
      py "canonicalisation and signer disagree"⟩
  pure write

/-! ## Honest signers -/

section Agreement

variable [Ed25519]

/-- Ed25519 accepts what the signer signs, under the key of its did. -/
def Honest (signer : Signer) : Prop :=
  ∀ payload, ∃ raw text, encodeSignature raw = .ok text ∧ signer.sign payload = .ok text ∧
    Ed25519.verify signer.did.publicKeyBytes raw payload = true

/-- A key pair that belongs together makes an honest signer. -/
theorem honest_ephemeralSigner {handle : PrivateKeyHandle}
    (h : ∀ payload, Ed25519.verify handle.publicKey (handle.rawSign payload) payload = true) :
    Honest (ephemeralSigner handle) := by
  intro payload
  have hkey : handle.did.publicKeyBytes = handle.publicKey := by
    have hdecode := handle.did.decode
    rw [decodeDidKey_iff_encodeDidKey.mpr handle.encode_did] at hdecode
    exact (Except.ok.inj hdecode).symm
  have hencode := encodeSignature_eq_ok.mpr ⟨handle.rawSign_length payload, rfl⟩
  refine ⟨handle.rawSign payload, _, hencode, hencode, ?_⟩
  show Ed25519.verify handle.did.publicKeyBytes _ _ = true
  rw [hkey]
  exact h payload

/-- What an honest signer signs verifies. -/
theorem Honest.verify {signer : Signer} (h : Honest signer) (payload : Bytes) :
    ∃ signature, signer.sign payload = .ok signature ∧
      verify signer.did.did signature payload = .ok true := by
  obtain ⟨raw, text, hencode, hsign, hverify⟩ := h payload
  refine ⟨text, hsign, ?_⟩
  unfold Identity.verify
  rw [signer.did.decode, decodeSignature_of_encodeSignature hencode]
  exact congrArg Except.ok hverify

/-! ## The three paths -/

omit [Ed25519] in
/-- The default payload sweeps first; sweeping beforehand makes no difference. -/
theorem messagePayload_swept (room text : PyStr) (nonce : PyInt) :
    messagePayload room nonce (singleLineSweep text) DEFAULT_SWEEP true =
      messagePayload room nonce text := rfl

omit [Ed25519] in
/-- The payload depends on the text through its sweep only. -/
theorem messagePayload_congr {room text text' : PyStr} {nonce : PyInt}
    (h : singleLineSweep text' = singleLineSweep text) :
    messagePayload room nonce text' = messagePayload room nonce text := by
  rw [← messagePayload_swept, h, messagePayload_swept]

omit [Ed25519] in
theorem notePayload_congr [PyRuntime] {namespace_ key value value' : PyStr} {nonce : PyInt}
    (h : singleLineSweep value' = singleLineSweep value) :
    notePayload namespace_ key nonce value' = notePayload namespace_ key nonce value := by
  have hswept : ∀ v, notePayload namespace_ key nonce (singleLineSweep v) DEFAULT_SWEEP true =
      notePayload namespace_ key nonce v := fun _ => rfl
  rw [← hswept, h, hswept]

/-- What the constructor returns: the payload of its arguments, signed, and verified. -/
theorem buildSignedMessage_eq_ok {signer : Signer} {room text : PyStr} {nonce : PyInt}
    {w : SignedWrite} :
    buildSignedMessage signer room nonce text = .ok w ↔
      ∃ payload signature, messagePayload room nonce text = .ok payload ∧
        signer.sign payload = .ok signature ∧
        w = ⟨signer.did.did, room, nonce, text, singleLineSweep text, signature, payload⟩ ∧
        w.verifies = .ok true := by
  simp only [buildSignedMessage, bind_eq_ok, validateRoom_eq_ok, validateNonce_eq_ok]
  constructor
  · rintro ⟨_, ⟨hroom, rfl⟩, _, ⟨n, rfl, rfl, hn⟩, payload, hp, signature, hs, ok, hok, h⟩
    cases ok with
    | false => cases h
    | true =>
      cases h
      exact ⟨payload, signature, hp, hs, rfl, hok⟩
  · rintro ⟨payload, signature, hp, hs, rfl, hok⟩
    obtain ⟨n, rfl, hn, hroom, -⟩ := messagePayload_eq_ok.mp hp
    exact ⟨room, ⟨hroom, rfl⟩, n, ⟨n, rfl, rfl, hn⟩, payload, hp, signature, hs, true, hok, rfl⟩

omit [Ed25519] in
/-- The capability signer signs the messages that have a payload. -/
theorem signTechnocoreMessage_of_payload {signer : CapabilitySigner} {room text : PyStr}
    {nonce : PyInt} {payload : Bytes} {signature : PyStr}
    (hp : messagePayload room nonce text = .ok payload) (hs : signer.sign payload = .ok signature) :
    ∃ n : Nat, nonce = .int n ∧ signTechnocoreMessage signer room nonce text =
      .ok ⟨signer.did.did, room, n, singleLineSweep text, signature, payload⟩ := by
  obtain ⟨n, rfl, hn, hroom, hbuilt⟩ := messagePayload_eq_ok.mp hp
  obtain ⟨hne, hlen, hu⟩ := hbuilt _ rfl
  exact ⟨n, rfl, signTechnocoreMessage_eq_ok.mpr
    ⟨n, payload, signature, rfl, hn, hroom, hne, hlen, hu, hs, rfl⟩⟩

omit [Ed25519] in
/-- A message that was signed has a payload. -/
theorem payload_of_signTechnocoreMessage {signer : CapabilitySigner} {room text : PyStr}
    {nonce : PyInt} {m : SignedMessage} (h : signTechnocoreMessage signer room nonce text = .ok m) :
    messagePayload room nonce text = .ok m.payload := by
  obtain ⟨n, payload, signature, rfl, hn, hroom, hne, hlen, hu, -, rfl⟩ :=
    signTechnocoreMessage_eq_ok.mp h
  refine messagePayload_eq_ok.mpr ⟨n, rfl, hn, hroom, ?_⟩
  rintro _ rfl
  exact ⟨hne, hlen, hu⟩

/-- **The signing paths agree.** For an honest signer, a message has a payload exactly if the capability
signer signs it and exactly if `build_signed_message` builds it; both then sign that payload, of the
same swept text, and their signature verifies for every text with that sweep, the text itself and its
sweep among them. What `sign_technocore_note` signs verifies for every value with the same sweep. -/
theorem signing_paths_agree [PyRuntime] {signer : Signer} (h : Honest signer) (allowNotes : Bool) :
    (∀ room nonce text,
      (∃ payload signature, ∃ n : Nat, nonce = .int n ∧
        messagePayload room nonce text = .ok payload ∧
        signTechnocoreMessage (signer.capability allowNotes) room nonce text =
          .ok ⟨signer.did.did, room, n, singleLineSweep text, signature, payload⟩ ∧
        buildSignedMessage signer room nonce text =
          .ok ⟨signer.did.did, room, nonce, text, singleLineSweep text, signature, payload⟩ ∧
        ∀ t, t = text ∨ t = singleLineSweep text ∨ singleLineSweep t = singleLineSweep text →
          verifyMessage signer.did.did signature room nonce t = .ok true) ∨
      ((messagePayload room nonce text).isOk = false ∧
        (signTechnocoreMessage (signer.capability allowNotes) room nonce text).isOk = false ∧
        (buildSignedMessage signer room nonce text).isOk = false)) ∧
    ∀ namespace_ key nonce value note,
      signTechnocoreNote (signer.capability allowNotes) namespace_ key nonce value = .ok note →
        ∀ v, v = value ∨ v = note.sweptValue ∨ singleLineSweep v = singleLineSweep value →
          verifyNote signer.did.did note.signature namespace_ key nonce v = .ok true := by
  constructor
  · intro room nonce text
    cases hp : messagePayload room nonce text with
    | ok payload =>
      obtain ⟨signature, hs, hv⟩ := h.verify payload
      have hs' : (signer.capability allowNotes).sign payload = .ok signature := hs
      obtain ⟨n, rfl, hsigned⟩ := signTechnocoreMessage_of_payload hp hs'
      have hall : ∀ t, t = text ∨ t = singleLineSweep text ∨
          singleLineSweep t = singleLineSweep text →
            verifyMessage signer.did.did signature room (.int n) t = .ok true := by
        intro t ht
        have hsweep : singleLineSweep t = singleLineSweep text := by
          rcases ht with rfl | rfl | ht
          · rfl
          · exact singleLineSweep_idem text
          · exact ht
        exact verifyMessage_eq_true.mpr ⟨payload, (messagePayload_congr hsweep).trans hp, hv⟩
      exact Or.inl ⟨payload, signature, n, rfl, rfl, hsigned, buildSignedMessage_eq_ok.mpr
        ⟨payload, signature, hp, hs, rfl, hall _ (Or.inr (Or.inl rfl))⟩, hall⟩
    | error e =>
      refine Or.inr ⟨rfl, ?_, ?_⟩
      · cases hsigned : signTechnocoreMessage (signer.capability allowNotes) room nonce text with
        | ok m =>
          rw [payload_of_signTechnocoreMessage hsigned] at hp
          cases hp
        | error _ => rfl
      · cases hbuilt : buildSignedMessage signer room nonce text with
        | ok w =>
          obtain ⟨payload, _, hp', -⟩ := buildSignedMessage_eq_ok.mp hbuilt
          rw [hp'] at hp
          cases hp
        | error _ => rfl
  · intro namespace_ key nonce value note hnote v hv
    obtain ⟨n, payload, signature, -, rfl, hp, hs, rfl⟩ := signTechnocoreNote_eq_ok.mp hnote
    have hsweep : singleLineSweep v = singleLineSweep value := by
      rcases hv with rfl | rfl | hv
      · rfl
      · exact singleLineSweep_idem value
      · exact hv
    obtain ⟨signature', hs', hverify⟩ := h.verify payload
    have hsame : signature' = signature := Except.ok.inj (hs'.symm.trans hs)
    rw [hsame] at hverify
    exact verifyNote_eq_true.mpr ⟨payload, (notePayload_congr hsweep).trans hp, hverify⟩

end Agreement

section Lobby

attribute [local instance] asciiRuntime acceptAll

/-- A key that signs everything with zeros. -/
def zeroHandle : PrivateKeyHandle where
  publicKey := (List.range 32).map fun i => UInt8.ofNat (i + 1)
  publicKey_length := rfl
  rawSign _ := List.replicate 64 0
  rawSign_length := zeros_length

theorem signing_paths_agree_lobby :
    ∃ signature, verifyMessage zeroHandle.did.did signature (py "lobby") (.int 5) (py " hello ") =
      .ok true := by
  have hhonest : Honest (ephemeralSigner zeroHandle) := honest_ephemeralSigner fun _ => rfl
  rcases (signing_paths_agree hhonest false).1 (py "lobby") (.int 5) (py " hello ") with
    ⟨payload, signature, n, -, -, -, -, hall⟩ | ⟨hno, -⟩
  · exact ⟨signature, hall _ (Or.inl rfl)⟩
  · have hyes : (messagePayload (py "lobby") (.int 5) (py " hello ")).isOk = true := by
      decide
    rw [hyes] at hno
    cases hno

end Lobby

end FlopOffice.Technocore
