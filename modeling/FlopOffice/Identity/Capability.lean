/-
# FlopOffice.Identity.Capability — signing, narrowed to two verbs.

A `CapabilitySigner` signs room messages, and kv notes if it was built with `allow_notes`. The bytes
are built inside, from validated parts; there is no way to pass it bytes.

The two statements share one separator, and the text of a message is free: `room|nonce|text` IS
`ns|key|nonce|value` when the text continues where the key left off. `payload_eq_iff` says exactly
when, and `domain_separation` what follows: a message signature is a note signature exactly for the
messages that read as a note (`ReadsAsNote`).
-/
import FlopOffice.Identity.Verifier

namespace FlopOffice.Identity

open FlopOffice.Lib FlopOffice.Python

/-! ## Signing -/

structure SignedMessage where
  did : PyStr
  room : PyStr
  nonce : Int
  sweptText : PyStr
  signature : PyStr
  payload : Bytes
  deriving DecidableEq

structure SignedNote where
  did : PyStr
  namespace_ : PyStr
  key : PyStr
  nonce : Int
  sweptValue : PyStr
  signature : PyStr
  payload : Bytes
  deriving DecidableEq

/-- A signer narrowed to two verbs; `sign` is the wrapped signer's. -/
structure CapabilitySigner where
  sign : Bytes → Except Exc PyStr
  did : DidKey
  allowNotes : Bool := false

/-- Sign one room message, built from validated parts. -/
def signTechnocoreMessage (signer : CapabilitySigner) (room : PyStr) (nonce : PyInt) (text : PyStr) :
    Except Exc SignedMessage := do
  let room ← validateRoom room
  let nonce ← validateNonce nonce
  let swept ← requireNonEmpty (singleLineSweep text)
  if swept.length > MAX_MESSAGE_CHARS then
    throw ⟨.canonicalisationError, py "message is " ++ decimalDigits swept.length ++
      py " chars after the sweep; the limit is 4096"⟩
  let payload ← messagePayload room (.int nonce) swept DEFAULT_SWEEP true
  let signature ← signer.sign payload
  pure ⟨signer.did.did, room, nonce, swept, signature, payload⟩

/-- The code point U+0060. -/
def backtick : CodePoint := ⟨0x60, by omega⟩

/-- Sign one kv note. Off unless explicitly enabled. -/
def signTechnocoreNote [PyRuntime] (signer : CapabilitySigner) (namespace_ key : PyStr)
    (nonce : PyInt) (value : PyStr) : Except Exc SignedNote := do
  if !signer.allowNotes then
    throw ⟨.capabilityError, py "this capability does not include note signing; notes claim and " ++
      py "hold " ++ backtick :: py "d-" ++ backtick ::
      py " rooms, so it is granted deliberately or not at all"⟩
  let namespace_ ← validateName namespace_ (py "namespace")
  let key ← validateName key (py "key")
  let nonce ← validateNonce nonce
  let swept ← requireNonEmpty (singleLineSweep value)
  let payload ← notePayload namespace_ key (.int nonce) swept DEFAULT_SWEEP true
  let signature ← signer.sign payload
  pure ⟨signer.did.did, namespace_, key, nonce, swept, signature, payload⟩

/-! ## What a signer returns -/

/-- A signed message: its payload is the text of its own fields. -/
theorem signTechnocoreMessage_eq_ok {signer : CapabilitySigner} {room text : PyStr} {nonce : PyInt}
    {m : SignedMessage} :
    signTechnocoreMessage signer room nonce text = .ok m ↔
      ∃ (n : Nat) (payload : Bytes) (signature : PyStr), nonce = .int n ∧ n < 10 ^ 19 ∧
        IsRoom room ∧ singleLineSweep text ≠ [] ∧
        (singleLineSweep text).length ≤ MAX_MESSAGE_CHARS ∧
        utf8 (messageText room n (singleLineSweep text)) = .ok payload ∧
        signer.sign payload = .ok signature ∧
        m = ⟨signer.did.did, room, n, singleLineSweep text, signature, payload⟩ := by
  simp only [signTechnocoreMessage, bind_eq_ok, validateRoom_eq_ok, validateNonce_eq_ok,
    requireNonEmpty_eq_ok]
  constructor
  · rintro ⟨r, ⟨hroom, rfl⟩, k, ⟨n, rfl, rfl, hn⟩, t, ⟨hne, rfl⟩, h⟩
    split at h
    · cases h
    · rename_i hlen
      obtain ⟨payload, hp, h⟩ := bind_eq_ok.mp h
      obtain ⟨signature, hs, h⟩ := bind_eq_ok.mp h
      obtain ⟨n', heq, -, -, hbuilt⟩ := messagePayload_eq_ok.mp hp
      obtain rfl : n = n' := by
        injection heq with heq
        omega
      cases h
      exact ⟨n, payload, signature, rfl, hn, hroom, hne, not_lt.mp hlen, (hbuilt _ rfl).2.2, hs,
        rfl⟩
  · rintro ⟨n, payload, signature, rfl, hn, hroom, hne, hlen, hu, hs, rfl⟩
    refine ⟨room, ⟨hroom, rfl⟩, n, ⟨n, rfl, rfl, hn⟩, _, ⟨hne, rfl⟩, ?_⟩
    rw [if_neg (not_lt.mpr hlen)]
    refine bind_eq_ok.mpr ⟨payload, messagePayload_eq_ok.mpr ⟨n, rfl, hn, hroom, ?_⟩, ?_⟩
    · rintro _ rfl
      exact ⟨hne, hlen, hu⟩
    · exact bind_eq_ok.mpr ⟨signature, hs, rfl⟩

/-- A signed note: its payload is the one `verify_note` rebuilds from the fields of the call. -/
theorem signTechnocoreNote_eq_ok [PyRuntime] {signer : CapabilitySigner}
    {namespace_ key value : PyStr} {nonce : PyInt} {note : SignedNote} :
    signTechnocoreNote signer namespace_ key nonce value = .ok note ↔
      ∃ (n : Nat) (payload : Bytes) (signature : PyStr), signer.allowNotes = true ∧
        nonce = .int n ∧ notePayload namespace_ key nonce value = .ok payload ∧
        signer.sign payload = .ok signature ∧
        note = ⟨signer.did.did, namespace_, key, n, singleLineSweep value, signature, payload⟩ := by
  have hswept : ∀ n : Nat, notePayload namespace_ key (.int n) (singleLineSweep value) DEFAULT_SWEEP
      true = notePayload namespace_ key (.int n) value := fun _ => rfl
  unfold signTechnocoreNote
  cases signer.allowNotes with
  | false => simp [throw, throwThe, MonadExceptOf.throw, bind, Except.bind]
  | true =>
    simp only [Bool.not_true, Bool.false_eq_true, if_false, bind_eq_ok, validateName_eq_ok,
      validateNonce_eq_ok, requireNonEmpty_eq_ok, pure, Except.pure, Except.ok.injEq, true_and]
    constructor
    · rintro ⟨_, ⟨-, rfl⟩, _, ⟨-, rfl⟩, _, ⟨n, rfl, rfl, -⟩, _, ⟨-, rfl⟩, payload, hp,
        signature, hs, rfl⟩
      exact ⟨n, payload, signature, rfl, hp, hs, rfl⟩
    · rintro ⟨n, payload, signature, rfl, hp, hs, rfl⟩
      obtain ⟨m, hm, hlt, hns, hkey, hbuilt⟩ := notePayload_eq_ok.mp hp
      obtain rfl : n = m := by
        injection hm with hm
        omega
      exact ⟨_, ⟨hns, rfl⟩, _, ⟨hkey, rfl⟩, _, ⟨n, rfl, rfl, hlt⟩, _, ⟨(hbuilt _ rfl).1, rfl⟩,
        payload, hp, signature, hs, rfl⟩

/-- Without the capability no note is signed. -/
theorem signTechnocoreNote_refused [PyRuntime] {signer : CapabilitySigner}
    (h : signer.allowNotes = false) (namespace_ key : PyStr) (nonce : PyInt) (value : PyStr) :
    ∃ e, signTechnocoreNote signer namespace_ key nonce value = .error e := by
  unfold signTechnocoreNote
  rw [h]
  exact ⟨_, rfl⟩

/-! ## Reading a message as a note -/

/-- Text before a separator it does not contain is determined. -/
theorem separator_inj {sep : CodePoint} {x y u v : PyStr} (hx : sep ∉ x) (hy : sep ∉ y)
    (h : x ++ sep :: u = y ++ sep :: v) : x = y ∧ u = v := by
  have hne : ∀ {z : PyStr}, sep ∉ z → ∀ c ∈ z, (c != sep) = true := by
    intro z hz c hc
    rw [bne_iff_ne]
    rintro rfl
    exact hz hc
  have hsep : ∀ (w : PyStr) (c : CodePoint), (sep :: w).head? = some c → (c != sep) = false := by
    intro w c hc
    cases hc
    simp
  obtain ⟨hxy, huv⟩ := run_inj (hne hx) (hne hy) (hsep u) (hsep v) h
  exact ⟨hxy, (List.cons.inj huv).2⟩

theorem separator_not_mem_name {s : PyStr} (h : matchStart NAME_RE s = true) : cp '|' ∉ s := by
  obtain ⟨name, ⟨c, body, rfl, hc, hbody, -⟩, hs⟩ := matchStart_NAME_RE.mp h
  have hname : cp '|' ∉ c :: body := by
    intro hmem
    rcases List.mem_cons.mp hmem with rfl | hmem
    · exact absurd hc (by decide)
    · exact absurd (hbody _ hmem) (by decide)
  rcases hs with rfl | rfl
  · exact hname
  · intro hmem
    rcases List.mem_append.mp hmem with hmem | hmem
    · exact hname hmem
    · exact absurd (List.mem_singleton.mp hmem) (by decide)

theorem separator_not_mem_decimalDigits (n : Nat) : cp '|' ∉ decimalDigits n := by
  intro h
  exact absurd (isDigit_of_mem_decimalDigits h) (by decide)

/-- **When the two statements are one text.** -/
theorem payload_eq_iff {room namespace_ key swept value : PyStr} {n m : Nat}
    (hroom : cp '|' ∉ room) (hns : cp '|' ∉ namespace_) (hkey : cp '|' ∉ key) :
    messageText room n swept = noteText namespace_ key m value ↔
      namespace_ = room ∧ key = decimalDigits n ∧ swept = decimalDigits m ++ cp '|' :: value := by
  constructor
  · intro h
    obtain ⟨hr, hrest⟩ := separator_inj hroom hns h
    obtain ⟨hk, hs⟩ := separator_inj (separator_not_mem_decimalDigits n) hkey hrest
    exact ⟨hr.symm, hk.symm, hs⟩
  · rintro ⟨rfl, rfl, rfl⟩
    rfl

/-- A message that reads as a note: the room is a name, and the text is a nonce, the separator, and a
value `note_payload` accepts. -/
def ReadsAsNote (room swept : PyStr) : Prop :=
  IsName room ∧ ∃ (nonce : Nat) (value : PyStr), nonce < 10 ^ 19 ∧
    swept = decimalDigits nonce ++ cp '|' :: value ∧ value ≠ [] ∧ singleLineSweep value = value ∧
      ∃ b, utf8 value = .ok b ∧ b.length ≤ MAX_NOTE_BYTES

/-- The decimal digits of a nonce are a name. -/
theorem matchStart_decimalDigits {n : Nat} (h : n < 10 ^ 19) :
    matchStart NAME_RE (decimalDigits n) = true := by
  obtain ⟨c, body, hcb⟩ := List.exists_cons_of_ne_nil (decimalDigits_ne_nil n)
  have hdigit : ∀ x ∈ c :: body, nameStart x = true := by
    intro x hx
    rw [← hcb] at hx
    rw [nameStart, isDigit_of_mem_decimalDigits hx, Bool.or_true]
  have hlen : (decimalDigits n).length ≤ 19 := (decimalDigits_length_le_iff (by decide)).mpr h
  rw [hcb, List.length_cons] at hlen
  refine matchStart_NAME_RE.mpr ⟨_, ⟨c, body, hcb, hdigit c List.mem_cons_self, fun x hx => ?_,
    by omega⟩, Or.inl rfl⟩
  rw [nameChar, hdigit x (List.mem_cons_of_mem _ hx), Bool.true_or, Bool.true_or]

/-- The notes with the payload of a given message: there is one exactly if the message reads as one. -/
theorem exists_notePayload_iff [PyRuntime] {room swept : PyStr} {n : Nat} {payload : Bytes}
    (hroom : IsRoom room) (hn : n < 10 ^ 19) (hu : utf8 (messageText room n swept) = .ok payload) :
    (∃ namespace_ key nonce value, notePayload namespace_ key nonce value = .ok payload) ↔
      ReadsAsNote room swept := by
  have hsep : cp '|' ∉ room := hroom.2.2.2 _ (by decide)
  constructor
  · rintro ⟨namespace_, key, nonce, value, h⟩
    obtain ⟨m, -, hm, hns, hkey, hbuilt⟩ := notePayload_eq_ok.mp h
    obtain ⟨hne, hu', b, hb, hlen⟩ := hbuilt _ rfl
    obtain ⟨rfl, -, rfl⟩ := (payload_eq_iff hsep (separator_not_mem_name hns)
      (separator_not_mem_name hkey)).mp (utf8_injective hu hu')
    refine ⟨?_, m, _, hm, rfl, hne, singleLineSweep_idem value, b, hb, hlen⟩
    -- a room has no line feed, so the name is all of it
    obtain ⟨name, hname, hs | hs⟩ := matchStart_NAME_RE.mp hns
    · rwa [hs]
    · have hfeed := (singleLineSweep_eq_self_iff.mp hroom.2.2.1).1 (cp '\n') (by rw [hs]; simp)
      exact absurd hfeed (by decide)
  · rintro ⟨hname, m, value, hm, rfl, hne, hswept, b, hb, hlen⟩
    refine ⟨room, decimalDigits n, .int m, value, notePayload_eq_ok.mpr ⟨m, rfl, hm,
      matchStart_NAME_RE.mpr ⟨room, hname, Or.inl rfl⟩, matchStart_decimalDigits hn, ?_⟩⟩
    rintro _ rfl
    rw [if_neg (by decide), hswept]
    exact ⟨hne, hu, b, hb, hlen⟩

/-! ## Domain separation -/

/-- A signature that verifies for exactly the payload it was made over. -/
def VerifiesExactly [Ed25519] (m : SignedMessage) : Prop :=
  ∀ payload, verify m.did m.signature payload = .ok true ↔ payload = m.payload

/-- **Domain separation, as far as it goes.** A signer without the note capability signs no note. A
message it signs shares its payload with no note any signer can sign exactly if it does not read as a
note; and then, and only then, `verify_note` accepts its signature for no note at all. -/
theorem domain_separation [PyRuntime] [Ed25519] {signer : CapabilitySigner} {room text : PyStr}
    {nonce : PyInt} {m : SignedMessage}
    (h : signTechnocoreMessage signer room nonce text = .ok m) :
    (signer.allowNotes = false → ∀ namespace_ key nonce value,
      ∃ e, signTechnocoreNote signer namespace_ key nonce value = .error e) ∧
    ((∀ (other : CapabilitySigner) namespace_ key nonce value note,
        signTechnocoreNote other namespace_ key nonce value = .ok note →
          note.payload ≠ m.payload) ↔ ¬ ReadsAsNote m.room m.sweptText) ∧
    (VerifiesExactly m →
      ((∀ namespace_ key nonce value,
        verifyNote m.did m.signature namespace_ key nonce value ≠ .ok true) ↔
          ¬ ReadsAsNote m.room m.sweptText)) := by
  obtain ⟨n, payload, signature, rfl, hn, hroom, -, -, hu, hs, rfl⟩ :=
    signTechnocoreMessage_eq_ok.mp h
  have hiff := exists_notePayload_iff hroom hn hu
  refine ⟨fun hno => signTechnocoreNote_refused hno, ?_, fun hideal => ?_⟩
  · rw [← hiff]
    constructor
    · rintro hsep ⟨namespace_, key, k, value, hp⟩
      obtain ⟨j, rfl, -⟩ := notePayload_eq_ok.mp hp
      -- the same key, with the note capability, signs the same bytes as a note
      exact hsep ⟨signer.sign, signer.did, true⟩ _ _ _ _ _
        (signTechnocoreNote_eq_ok.mpr ⟨j, payload, signature, rfl, rfl, hp, hs, rfl⟩) rfl
    · intro hnone other namespace_ key k value note hnote heq
      obtain ⟨_, p, _, -, -, hp, -, rfl⟩ := signTechnocoreNote_eq_ok.mp hnote
      exact hnone ⟨namespace_, key, k, value, hp.trans (congrArg Except.ok heq)⟩
  · rw [← hiff]
    constructor
    · rintro hverify ⟨namespace_, key, k, value, hp⟩
      exact hverify _ _ _ _ (verifyNote_eq_true.mpr ⟨payload, hp, (hideal _).mpr rfl⟩)
    · intro hnone namespace_ key k value hv
      obtain ⟨p, hp, hvp⟩ := verifyNote_eq_true.mp hv
      have heq : p = payload := (hideal p).mp hvp
      exact hnone ⟨namespace_, key, k, value, heq ▸ hp⟩

/-! ### A message that is a note -/

section Lobby

attribute [local instance] asciiRuntime

/-- A key that accepts one payload only. -/
@[reducible] def acceptOnly (payload : Bytes) : Ed25519 := ⟨fun _ _ p => p == payload⟩

/-- A public key, and a signer that holds its private key and may not sign notes. -/
def lobbySigner : CapabilitySigner where
  sign _ := .ok (List.replicate 86 (cp 'A'))
  did := {
    did := py "did:key:z6MkeXCES4onVW4up9Qgz1" ++ py "KRnZsKmGufcaZxF6Zpv2w5QwUK"
    valid := ⟨(List.range 32).map fun i => UInt8.ofNat (i + 1), by decide +kernel⟩ }

/-- What `lobbySigner` signs for a text in the lobby. -/
def lobbyMessage (text : String) : SignedMessage where
  did := lobbySigner.did.did
  room := py "lobby"
  nonce := 5
  sweptText := py text
  signature := List.replicate 86 (cp 'A')
  payload := (messageText (py "lobby") 5 (py text)).map fun c => UInt8.ofNat c.val

theorem verifiesExactly_lobby (text : String) :
    @VerifiesExactly (acceptOnly (lobbyMessage text).payload) (lobbyMessage text) := by
  intro payload
  obtain ⟨key, hkey⟩ := lobbySigner.did.valid
  have hraw : decodeSignature (List.replicate 86 (cp 'A')) = .ok (List.replicate 64 0) := by
    decide
  unfold verify lobbyMessage
  rw [hkey, hraw]
  show Except.ok (payload == _) = .ok true ↔ _
  rw [Except.ok.injEq, beq_iff_eq]

theorem domain_separation_lobby :
    (∀ (other : CapabilitySigner) namespace_ key nonce value note,
      signTechnocoreNote other namespace_ key nonce value = .ok note →
        note.payload ≠ (lobbyMessage "hello").payload) ∧
    ∀ namespace_ key nonce value,
      @verifyNote (acceptOnly (lobbyMessage "hello").payload) _ (lobbyMessage "hello").did
        (lobbyMessage "hello").signature namespace_ key nonce value ≠ .ok true := by
  have hno : ¬ ReadsAsNote (lobbyMessage "hello").room (lobbyMessage "hello").sweptText := by
    rintro ⟨-, n, value, -, heq, -⟩
    have hmem : cp '|' ∈ py "hello" := by
      rw [show py "hello" = decimalDigits n ++ cp '|' :: value from heq]
      simp
    exact absurd hmem (by decide)
  obtain ⟨-, hpayload, hverify⟩ := @domain_separation _ (acceptOnly (lobbyMessage "hello").payload)
    lobbySigner (py "lobby") (py "hello") (.int 5) (lobbyMessage "hello") (by decide)
  exact ⟨hpayload.mpr hno, (hverify (verifiesExactly_lobby _)).mpr hno⟩

/-- **A message that is a note.** A signer without the note capability signs the text `7|hello` in the
room `lobby`; `verify_note` accepts the signature for the note `hello` under `lobby/5`. -/
theorem message_is_a_note :
    lobbySigner.allowNotes = false ∧
    signTechnocoreMessage lobbySigner (py "lobby") (.int 5) (py "7|hello") =
      .ok (lobbyMessage "7|hello") ∧
    (∃ note, signTechnocoreNote ⟨lobbySigner.sign, lobbySigner.did, true⟩ (py "lobby") (py "5")
      (.int 7) (py "hello") = .ok note ∧ note.payload = (lobbyMessage "7|hello").payload) ∧
    @VerifiesExactly (acceptOnly (lobbyMessage "7|hello").payload) (lobbyMessage "7|hello") ∧
    @verifyNote (acceptOnly (lobbyMessage "7|hello").payload) _ (lobbyMessage "7|hello").did
      (lobbyMessage "7|hello").signature (py "lobby") (py "5") (.int 7) (py "hello") = .ok true := by
  have hnote : notePayload (py "lobby") (py "5") (.int 7) (py "hello") =
      .ok (lobbyMessage "7|hello").payload := by decide
  refine ⟨rfl, by decide, ⟨_, signTechnocoreNote_eq_ok.mpr ⟨7, _, _, rfl, rfl, hnote, rfl,
    rfl⟩, rfl⟩, verifiesExactly_lobby _, ?_⟩
  let := acceptOnly (lobbyMessage "7|hello").payload
  exact verifyNote_eq_true.mpr ⟨_, hnote, (verifiesExactly_lobby _ _).mpr rfl⟩

end Lobby

end FlopOffice.Identity
