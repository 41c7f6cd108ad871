/-
# FlopOffice.Technocore.ReadRoom — one record of a room read, wrapped.

`_to_message` converts the nonce of a record twice. The verified one is `int(nonce)`, which accepts
floats, signs and blanks; the stored one is `int(nonce)` of a digit string only. And what is verified
is the sweep of the text, what is stored the text itself. A verified message can be checked again from
its own fields exactly where the two conversions, and the two texts, coincide (`verified_backed_iff`).
-/
import FlopOffice.Identity.Binding
import FlopOffice.Technocore.Untrusted

namespace FlopOffice.Technocore

open FlopOffice.Identity FlopOffice.Python

/-! ## Wrapping a record -/

section Read

variable [PyRuntime] [PyBuiltins]

/-- `str(value) if value else None`. -/
def strIfTrue (v : PyVal) : Except Exc (Option PyStr) :=
  if v.truthy then v.str.map some else .ok none

/-- `int(nonce) if isinstance(nonce, (int, str)) and str(nonce).isdigit() else None`. -/
def storedNonce (v : PyVal) : Except Exc (Option Int) :=
  if v.isIntOrStr then do
    let text ← v.str
    if isdigit text then v.int.map some else pure none
  else .ok none

/-- `except (ValueError, TypeError): verified = False`. -/
def orFalse : Except Exc Bool → Except Exc Bool
  | .ok b => .ok b
  | .error e => if e.cls.isValueError || e.cls == .typeError then .ok false else .error e

/-- The verification of a record. -/
def verifyRecord [Ed25519] (room : PyStr) (author signature nonce : PyVal) (text : PyStr) :
    Except Exc Bool :=
  if author.truthy && signature.truthy && !nonce.isNone then
    orFalse do
      let did ← author.str
      let signature ← signature.str
      let nonce ← nonce.int
      verifyMessage did signature room (.int nonce) text
  else .ok false

/-- Wrap one room record. -/
def toMessage [Ed25519] (room : PyStr) (item : PyVal) : Except Exc UntrustedMessage :=
  match item with
  | .dict _ => do
    let author := pyOr (item.get (py "from")) (item.get (py "did"))
    let signature := pyOr (item.get (py "sig")) (item.get (py "signature"))
    let nonce := item.get (py "nonce")
    let text ← (item.get (py "text") (.leaf (.str []))).str
    let verified ← verifyRecord room author signature nonce text
    let shownDid ← strIfTrue author
    let shownNick ← strIfTrue (item.get (py "nick"))
    let shownSignature ← strIfTrue signature
    let shownNonce ← storedNonce nonce
    pure {
      room := room
      seq := item.get (py "seq")
      ts := item.get (py "ts")
      text := ⟨text⟩
      did := shownDid
      nick := shownNick
      signature := shownSignature
      nonce := shownNonce
      verified := verified
      signatureReturned := signature.truthy
      raw := item }
  | _ => do
    let text ← item.str
    pure { room := room, seq := .leaf .none, ts := .leaf .none, text := ⟨text⟩ }

/-! ## When a record verifies -/

variable [Ed25519]

omit [PyRuntime] [PyBuiltins] [Ed25519] in
theorem orFalse_eq_true {x : Except Exc Bool} : orFalse x = .ok true ↔ x = .ok true := by
  cases x with
  | ok b => rfl
  | error e =>
    show (if _ then _ else _) = _ ↔ _
    split <;> simp

theorem verifyRecord_eq_true {room text : PyStr} {author signature nonce : PyVal} :
    verifyRecord room author signature nonce text = .ok true ↔
      (author.truthy = true ∧ signature.truthy = true ∧ nonce.isNone = false) ∧
        ∃ did sig k, author.str = .ok did ∧ signature.str = .ok sig ∧ nonce.int = .ok k ∧
          verifyMessage did sig room (.int k) text = .ok true := by
  unfold verifyRecord
  split
  · rename_i hpresent
    rw [Bool.and_eq_true, Bool.and_eq_true, Bool.not_eq_true', and_assoc] at hpresent
    rw [orFalse_eq_true, and_iff_right hpresent]
    simp only [bind_eq_ok]
    constructor
    · rintro ⟨did, hd, sig, hsig, k, hk, hv⟩
      exact ⟨did, sig, k, hd, hsig, hk, hv⟩
    · rintro ⟨did, sig, k, hd, hsig, hk, hv⟩
      exact ⟨did, hd, sig, hsig, k, hk, hv⟩
  · rename_i hmissing
    refine iff_of_false (fun h => by cases h) fun h => hmissing ?_
    rw [h.1.1, h.1.2.1, h.1.2.2]
    rfl

/-- What a verified message was wrapped from: a `dict` whose fields were converted twice. -/
theorem toMessage_verified {room : PyStr} {item : PyVal} {m : UntrustedMessage}
    (h : toMessage room item = .ok m) (hv : m.verified = true) :
    ∃ did sig k text, (item.get (py "text") (.leaf (.str []))).str = .ok text ∧
      (item.get (py "nonce")).int = .ok k ∧
      verifyMessage did sig room (.int k) text = .ok true ∧
      m.room = room ∧ m.text.raw = text ∧ m.did = some did ∧ m.signature = some sig ∧
      storedNonce (item.get (py "nonce")) = .ok m.nonce := by
  cases item with
  | dict items =>
    simp only [toMessage, bind_eq_ok] at h
    obtain ⟨text, htext, verified, hverified, did, hdid, nick, -, sig, hsig, nonce, hnonce, h⟩ := h
    cases h
    subst hv
    obtain ⟨⟨ha, hs, -⟩, did', sig', k, hdid', hsig', hk, hver⟩ := verifyRecord_eq_true.mp hverified
    unfold strIfTrue at hdid hsig
    rw [if_pos ha, hdid'] at hdid
    rw [if_pos hs, hsig'] at hsig
    cases hdid
    cases hsig
    exact ⟨did', sig', k, text, htext, hk, hver, rfl, rfl, rfl, rfl, hnonce⟩
  | leaf x =>
    simp only [toMessage, bind_eq_ok] at h
    obtain ⟨text, -, h⟩ := h
    cases h
    cases hv
  | list items =>
    simp only [toMessage, bind_eq_ok] at h
    obtain ⟨text, -, h⟩ := h
    cases h
    cases hv
  | other =>
    simp only [toMessage, bind_eq_ok] at h
    obtain ⟨text, -, h⟩ := h
    cases h
    cases hv

/-! ## What a verified message can be checked against -/

omit [PyRuntime] [PyBuiltins] in
/-- The message can be verified from its own fields: its signature is valid under its did over
`room|nonce|text`, with its nonce and its text. -/
def UntrustedMessage.Backed (m : UntrustedMessage) : Prop :=
  ∃ did signature nonce digits payload, m.did = some did ∧ m.signature = some signature ∧
    m.nonce = some nonce ∧ strInt nonce = .ok digits ∧
    utf8 (m.room ++ cp '|' :: (digits ++ cp '|' :: m.text.raw)) = .ok payload ∧
    verify did signature payload = .ok true

omit [PyRuntime] [PyBuiltins] in
/-- The signature of `m` is valid for one payload at most. -/
def UntrustedMessage.SignsOnce (m : UntrustedMessage) : Prop :=
  ∀ did signature p q, m.did = some did → m.signature = some signature →
    verify did signature p = .ok true → verify did signature q = .ok true → p = q

omit [Ed25519] in
/-- The nonce of a record is an integer or a string, and shows as digits. -/
def NonceShown (item : PyVal) : Prop :=
  (item.get (py "nonce")).isIntOrStr = true ∧
    ∃ text, (item.get (py "nonce")).str = .ok text ∧ isdigit text = true

omit [Ed25519] in
/-- The text of a record is its own sweep. -/
def TextSwept (item : PyVal) : Prop :=
  ∀ text, (item.get (py "text") (.leaf (.str []))).str = .ok text → singleLineSweep text = text

omit [Ed25519] in
theorem storedNonce_eq_some {v : PyVal} {k : Int} :
    storedNonce v = .ok (some k) ↔
      (v.isIntOrStr = true ∧ ∃ text, v.str = .ok text ∧ isdigit text = true) ∧ v.int = .ok k := by
  unfold storedNonce
  split
  · rename_i hty
    simp only [hty, true_and, bind_eq_ok]
    constructor
    · rintro ⟨text, htext, h⟩
      split at h
      · rename_i hd
        obtain ⟨k', hk', hkk⟩ := map_eq_ok.mp h
        cases hkk
        exact ⟨⟨text, htext, hd⟩, hk'⟩
      · cases h
    · rintro ⟨⟨text, htext, hd⟩, hk⟩
      refine ⟨text, htext, ?_⟩
      rw [if_pos hd, hk]
      rfl
  · rename_i hty
    simp [hty]

/-- **When a verified flag is backed by its message.** If the nonce of the record shows as digits and
its text is its own sweep, the message can be verified from its own fields; and if it can, the nonce
shows as digits, and the text is its own sweep unless the signature is valid for two payloads. -/
theorem verified_backed_iff {room : PyStr} {item : PyVal} {m : UntrustedMessage}
    (h : toMessage room item = .ok m) (hv : m.verified = true) :
    (NonceShown item ∧ TextSwept item → m.Backed) ∧
      (m.Backed → NonceShown item ∧ (m.SignsOnce → TextSwept item)) := by
  obtain ⟨did, sig, k, text, htext, hk, hver, hroom, hraw, hdid, hsig, hnonce⟩ :=
    toMessage_verified h hv
  obtain ⟨payload, hpayload, hverify⟩ := verifyMessage_eq_true.mp hver
  obtain ⟨n, hn, hlt, -, hbuilt⟩ := messagePayload_eq_ok.mp hpayload
  obtain rfl : k = n := PyInt.int.inj hn
  have hutf : utf8 (messageText room n (singleLineSweep text)) = .ok payload := (hbuilt _ rfl).2.2
  constructor
  · rintro ⟨hshown, hswept⟩
    refine ⟨did, sig, n, decimalDigits n, payload, hdid, hsig, ?_, strInt_natCast hlt, ?_, hverify⟩
    · exact Except.ok.inj (hnonce.symm.trans (storedNonce_eq_some.mpr ⟨hshown, hk⟩))
    · rw [hswept text htext] at hutf
      rw [hroom, hraw]
      exact hutf
  · rintro ⟨did', sig', k', digits, payload', hdid', hsig', hnonce', hdigits, hutf', hverify'⟩
    rw [hnonce'] at hnonce
    obtain ⟨hshown, hk'⟩ := storedNonce_eq_some.mp hnonce
    refine ⟨hshown, fun honce text' htext' => ?_⟩
    -- both payloads are valid for the signature, so they are one
    rw [hdid] at hdid'
    rw [hsig] at hsig'
    cases hdid'
    cases hsig'
    rw [htext] at htext'
    cases htext'
    rw [hk] at hk'
    cases hk'
    rw [strInt_natCast hlt] at hdigits
    cases hdigits
    have hsame := honce _ _ _ _ hdid hsig hverify hverify'
    rw [← hsame] at hutf'
    have htexts := utf8_injective hutf hutf'
    rw [hroom, hraw] at htexts
    exact (List.cons.inj (List.append_cancel_left (List.cons.inj
      (List.append_cancel_left htexts)).2)).2

end Read

section Lobby

attribute [local instance] asciiRuntime asciiBuiltins

/-- A record of the lobby, signed by a key that accepts one payload. -/
def lobbyRecord (nonce : Scalar) (text : String) : PyVal :=
  .record [(py "from", .leaf (.str (lobbyMessage "hello").did)),
    (py "sig", .leaf (.str (lobbyMessage "hello").signature)),
    (py "nonce", .leaf nonce), (py "text", .leaf (.str (py text)))]

/-- What a record is wrapped to by a key that accepts the payload of `hello`. -/
def lobbyRead (nonce : Scalar) (text : String) : Except Exc UntrustedMessage :=
  let := acceptOnly (lobbyMessage "hello").payload
  toMessage (py "lobby") (lobbyRecord nonce text)

theorem lobbyRead_eq_ok (nonce : Scalar) (text : String) (stored : Option Int)
    (hnone : PyVal.isNone (.leaf nonce) = false) (hk : PyVal.int (.leaf nonce) = .ok 5)
    (hstored : storedNonce (.leaf nonce) = .ok stored)
    (hp : messagePayload (py "lobby") (.int 5) (py text) = .ok (lobbyMessage "hello").payload) :
    ∃ m, lobbyRead nonce text = .ok m ∧ m.verified = true ∧ m.room = py "lobby" ∧
      m.text.raw = py text ∧ m.nonce = stored ∧ m.did = some (lobbyMessage "hello").did ∧
      m.signature = some (lobbyMessage "hello").signature := by
  let := acceptOnly (lobbyMessage "hello").payload
  have hver : verifyRecord (py "lobby") (.leaf (.str (lobbyMessage "hello").did))
      (.leaf (.str (lobbyMessage "hello").signature)) (.leaf nonce) (py text) = .ok true := by
    refine verifyRecord_eq_true.mpr ⟨⟨by decide, by decide, hnone⟩, _, _, 5, rfl, rfl, hk, ?_⟩
    exact verifyMessage_eq_true.mpr ⟨_, hp, (verifiesExactly_lobby "hello" _).mpr rfl⟩
  refine ⟨⟨py "lobby", .leaf .none, .leaf .none, ⟨py text⟩, some (lobbyMessage "hello").did, none,
    some (lobbyMessage "hello").signature, stored, true, true, lobbyRecord nonce text⟩, ?_, rfl, rfl,
    rfl, rfl, rfl, rfl⟩
  have hnick : strIfTrue ((lobbyRecord nonce text).get (py "nick")) = .ok none := rfl
  have hdid : strIfTrue (.leaf (.str (lobbyMessage "hello").did)) =
      .ok (some (lobbyMessage "hello").did) := rfl
  have hsig : strIfTrue (.leaf (.str (lobbyMessage "hello").signature)) =
      .ok (some (lobbyMessage "hello").signature) := rfl
  show toMessage (py "lobby") (lobbyRecord nonce text) = _
  unfold toMessage
  show (do
    let verified ← verifyRecord (py "lobby") (.leaf (.str (lobbyMessage "hello").did))
      (.leaf (.str (lobbyMessage "hello").signature)) (.leaf nonce) (py text)
    let shownDid ← strIfTrue (.leaf (.str (lobbyMessage "hello").did))
    let shownNick ← strIfTrue ((lobbyRecord nonce text).get (py "nick"))
    let shownSignature ← strIfTrue (.leaf (.str (lobbyMessage "hello").signature))
    let shownNonce ← storedNonce (.leaf nonce)
    pure (⟨py "lobby", .leaf .none, .leaf .none, ⟨py text⟩, shownDid, shownNick, shownSignature,
      shownNonce, verified, true, lobbyRecord nonce text⟩ : UntrustedMessage) :
        Except Exc UntrustedMessage) = _
  rw [hver, hdid, hnick, hsig, hstored]
  rfl

/-- The record of a message, as signed. -/
theorem verified_backed_iff_lobby :
    ∃ m, lobbyRead (.int 5) "hello" = .ok m ∧
      @UntrustedMessage.Backed (acceptOnly (lobbyMessage "hello").payload) m := by
  let := acceptOnly (lobbyMessage "hello").payload
  obtain ⟨m, hm, hv, -⟩ := lobbyRead_eq_ok (.int 5) "hello" (some 5) rfl rfl (by decide)
    (by decide)
  have hnonce : (lobbyRecord (.int 5) "hello").get (py "nonce") = .leaf (.int 5) := rfl
  have hshown : NonceShown (lobbyRecord (.int 5) "hello") := by
    unfold NonceShown
    rw [hnonce]
    exact ⟨rfl, py "5", by decide, by decide⟩
  have hread : toMessage (py "lobby") (lobbyRecord (.int 5) "hello") = .ok m := hm
  refine ⟨m, hm, (verified_backed_iff hread hv).1 ⟨hshown, ?_⟩⟩
  intro text htext
  cases htext
  decide

/-- **Verified, and not backed.** A blank in front of the text is not signed; a float nonce is not
stored. -/
theorem verified_not_backed :
    (∃ m, lobbyRead (.int 5) " hello" = .ok m ∧ m.verified = true ∧
      ¬ @UntrustedMessage.Backed (acceptOnly (lobbyMessage "hello").payload) m) ∧
    ∃ m, lobbyRead (.float (.finite false 5 0)) "hello" = .ok m ∧ m.verified = true ∧ m.nonce = none := by
  let := acceptOnly (lobbyMessage "hello").payload
  constructor
  · obtain ⟨m, hm, hv, hroom, htext, hnonce, hdid, hsig⟩ := lobbyRead_eq_ok (.int 5) " hello" (some 5)
      rfl rfl (by decide) (by decide)
    refine ⟨m, hm, hv, ?_⟩
    rintro ⟨did, sig, k, digits, payload, hdid', hsig', hk, hdigits, hutf, hverify⟩
    rw [hdid] at hdid'
    rw [hsig] at hsig'
    rw [hnonce] at hk
    cases hdid'
    cases hsig'
    cases hk
    cases hdigits
    rw [hroom, htext] at hutf
    have hsame := (verifiesExactly_lobby "hello" payload).mp hverify
    rw [hsame] at hutf
    exact absurd hutf (by decide)
  · obtain ⟨m, hm, hv, -, -, hnonce, -⟩ := lobbyRead_eq_ok (.float (.finite false 5 0)) "hello"
      none rfl rfl rfl (by decide)
    exact ⟨m, hm, hv, hnonce⟩

end Lobby

end FlopOffice.Technocore
