/-
# FlopOffice.Identity.Binding — a payload is uniquely readable within its kind.

The last field of a payload is free text, separators and digits included. It is the last, and the
fields before it contain no separator, so cutting at the first separators reads a payload back; and
UTF-8 is injective, so its bytes do as well. Across the two kinds this fails (`payload_eq_iff`).
-/
import FlopOffice.Identity.Capability

namespace FlopOffice.Identity

open FlopOffice.Python

/-- The text a payload ends with. -/
def sweptText (alreadySwept : Bool) (text : PyStr) : PyStr :=
  if alreadySwept then text else singleLineSweep text

/-! ## The texts -/

theorem messageText_inj {room room' swept swept' : PyStr} {n n' : Nat} (hroom : cp '|' ∉ room)
    (hroom' : cp '|' ∉ room') (h : messageText room n swept = messageText room' n' swept') :
    room = room' ∧ n = n' ∧ swept = swept' := by
  obtain ⟨hr, hrest⟩ := separator_inj hroom hroom' h
  obtain ⟨hn, hs⟩ := separator_inj (separator_not_mem_decimalDigits n)
    (separator_not_mem_decimalDigits n') hrest
  exact ⟨hr, decimalDigits_injective hn, hs⟩

theorem noteText_inj {namespace_ namespace' key key' swept swept' : PyStr} {n n' : Nat}
    (hns : cp '|' ∉ namespace_) (hns' : cp '|' ∉ namespace') (hkey : cp '|' ∉ key)
    (hkey' : cp '|' ∉ key') (h : noteText namespace_ key n swept = noteText namespace' key' n' swept') :
    namespace_ = namespace' ∧ key = key' ∧ n = n' ∧ swept = swept' := by
  obtain ⟨hn, hrest⟩ := separator_inj hns hns' h
  -- what is left of a note is the text of a message
  obtain ⟨hk, hnonce, hs⟩ := messageText_inj hkey hkey' hrest
  exact ⟨hn, hk, hnonce, hs⟩

/-! ## The payloads -/

/-- Equal message payloads are payloads of the same message. -/
theorem messagePayload_inj {room room' text text' : PyStr} {nonce nonce' : PyInt} {pre pre' : Bool}
    {payload : Bytes} (h : messagePayload room nonce text DEFAULT_SWEEP pre = .ok payload)
    (h' : messagePayload room' nonce' text' DEFAULT_SWEEP pre' = .ok payload) :
    room = room' ∧ nonce = nonce' ∧ sweptText pre text = sweptText pre' text' := by
  obtain ⟨n, rfl, -, hroom, hbuilt⟩ := messagePayload_eq_ok.mp h
  obtain ⟨n', rfl, -, hroom', hbuilt'⟩ := messagePayload_eq_ok.mp h'
  have heq := utf8_injective (hbuilt _ rfl).2.2 (hbuilt' _ rfl).2.2
  obtain ⟨hr, hn, hs⟩ := messageText_inj (hroom.2.2.2 _ (by decide)) (hroom'.2.2.2 _ (by decide)) heq
  exact ⟨hr, by rw [hn], hs⟩

/-- Equal note payloads are payloads of the same note. -/
theorem notePayload_inj [PyRuntime] {namespace_ namespace' key key' value value' : PyStr}
    {nonce nonce' : PyInt} {pre pre' : Bool} {payload : Bytes}
    (h : notePayload namespace_ key nonce value DEFAULT_SWEEP pre = .ok payload)
    (h' : notePayload namespace' key' nonce' value' DEFAULT_SWEEP pre' = .ok payload) :
    namespace_ = namespace' ∧ key = key' ∧ nonce = nonce' ∧
      sweptText pre value = sweptText pre' value' := by
  obtain ⟨n, rfl, -, hns, hkey, hbuilt⟩ := notePayload_eq_ok.mp h
  obtain ⟨n', rfl, -, hns', hkey', hbuilt'⟩ := notePayload_eq_ok.mp h'
  have heq := utf8_injective (hbuilt _ rfl).2.1 (hbuilt' _ rfl).2.1
  obtain ⟨hn, hk, hnonce, hs⟩ := noteText_inj (separator_not_mem_name hns)
    (separator_not_mem_name hns') (separator_not_mem_name hkey) (separator_not_mem_name hkey') heq
  exact ⟨hn, hk, by rw [hnonce], hs⟩

/-- A message verifies exactly if it has a payload and the payload does. -/
theorem verifyMessage_eq_true [Ed25519] {did signature room text : PyStr} {nonce : PyInt} :
    verifyMessage did signature room nonce text = .ok true ↔
      ∃ payload, messagePayload room nonce text = .ok payload ∧
        verify did signature payload = .ok true := by
  unfold verifyMessage
  cases messagePayload room nonce text with
  | ok payload => simp
  | error e =>
    simp only [reduceCtorEq, false_and, exists_false, iff_false]
    split <;> simp

/-- **A payload binds every field.** Equal payloads of messages are payloads of one message, and of
notes of one note; so a signature that is valid for one payload only verifies for one message, or
note, only. -/
theorem payload_binds [PyRuntime] [Ed25519] :
    (∀ {room room' text text' : PyStr} {nonce nonce' : PyInt} {pre pre' : Bool} {payload : Bytes},
      messagePayload room nonce text DEFAULT_SWEEP pre = .ok payload →
      messagePayload room' nonce' text' DEFAULT_SWEEP pre' = .ok payload →
        room = room' ∧ nonce = nonce' ∧ sweptText pre text = sweptText pre' text') ∧
    (∀ {namespace_ namespace' key key' value value' : PyStr} {nonce nonce' : PyInt} {pre pre' : Bool}
      {payload : Bytes},
      notePayload namespace_ key nonce value DEFAULT_SWEEP pre = .ok payload →
      notePayload namespace' key' nonce' value' DEFAULT_SWEEP pre' = .ok payload →
        namespace_ = namespace' ∧ key = key' ∧ nonce = nonce' ∧
          sweptText pre value = sweptText pre' value') ∧
    ∀ {did signature : PyStr} {payload : Bytes},
      (∀ p, verify did signature p = .ok true → p = payload) →
      (∀ {room room' text text' : PyStr} {nonce nonce' : PyInt} {pre : Bool},
        messagePayload room nonce text DEFAULT_SWEEP pre = .ok payload →
        verifyMessage did signature room' nonce' text' = .ok true →
          room = room' ∧ nonce = nonce' ∧ sweptText pre text = singleLineSweep text') ∧
      ∀ {namespace_ namespace' key key' value value' : PyStr} {nonce nonce' : PyInt} {pre : Bool},
        notePayload namespace_ key nonce value DEFAULT_SWEEP pre = .ok payload →
        verifyNote did signature namespace' key' nonce' value' = .ok true →
          namespace_ = namespace' ∧ key = key' ∧ nonce = nonce' ∧
            sweptText pre value = singleLineSweep value' := by
  refine ⟨messagePayload_inj, notePayload_inj, fun hone => ⟨fun h hv => ?_, fun h hv => ?_⟩⟩
  · obtain ⟨p, hp, hvp⟩ := verifyMessage_eq_true.mp hv
    rw [hone p hvp] at hp
    exact messagePayload_inj h hp
  · obtain ⟨p, hp, hvp⟩ := verifyNote_eq_true.mp hv
    rw [hone p hvp] at hp
    exact notePayload_inj h hp

section Lobby

/-- Nothing verifies but the payload of one message. -/
@[reducible] def acceptOneLobby : Ed25519 := acceptOnly (lobbyMessage "7|hello").payload

attribute [local instance] asciiRuntime acceptOneLobby

/-- Two spellings of one message have one payload; and the signature, which verifies for it with blanks
around, does not for the message with the nonce's digit moved into the text. -/
theorem payload_binds_lobby :
    sweptText false (py " 7|hello") = sweptText true (py "7|hello") ∧
      verifyMessage lobbySigner.did.did (lobbyMessage "7|hello").signature (py "lobby") (.int 5)
        (py " 7|hello ") = .ok true ∧
      verifyMessage lobbySigner.did.did (lobbyMessage "7|hello").signature (py "lobby") (.int 57)
        (py "hello") ≠ .ok true := by
  have h : messagePayload (py "lobby") (.int 5) (py " 7|hello") = .ok (lobbyMessage "7|hello").payload := by
    decide
  have h' : messagePayload (py "lobby") (.int 5) (py "7|hello") DEFAULT_SWEEP true =
      .ok (lobbyMessage "7|hello").payload := by decide
  have hone : ∀ p, verify lobbySigner.did.did (lobbyMessage "7|hello").signature p = .ok true →
      p = (lobbyMessage "7|hello").payload := by
    intro p hp
    obtain ⟨key, raw, -, -, haccepted⟩ := verify_eq_true.mp hp
    exact eq_of_beq haccepted
  refine ⟨(payload_binds.1 h h').2.2, by decide +kernel, fun hverified => ?_⟩
  obtain ⟨-, hnonce, -⟩ := (payload_binds.2.2 hone).1 h hverified
  cases hnonce

end Lobby

end FlopOffice.Identity
