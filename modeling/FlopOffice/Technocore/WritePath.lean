/-
# FlopOffice.Technocore.WritePath — the URL of a signed write keeps its structure, and when it does not.

The path of a write has seven segments after its leading separator, five of them encoded fields. Each
reads back as its field, and none of them is taken for structure, as long as it is no dot segment.
Neither `validate_room` nor the sweep keeps a room or a text of one or two dots out, and
`encode_path_segment` leaves a dot as it is: such a write is built, signed and verified, and its request
goes to another path (`write_path_iff`).
-/
import FlopOffice.Identity.PathSegment
import FlopOffice.Technocore.SignedWrite

namespace FlopOffice.Technocore

open FlopOffice.Identity FlopOffice.Lib FlopOffice.Python

/-! ## Structure -/

/-- The path splits into its seven segments, they read back as the fields they were written from, and
the removal of dot segments finds none. -/
def KeepsStructure (w : SignedWrite) : Prop :=
  ∃ path room did signature nonce digits text, w.path = .ok path ∧ w.nonce.str = .ok digits ∧
    path.splitOn (cp '/') = [[], py "r", room, py "say-signed", did, signature, nonce, text] ∧
    decodePathSegment room = some w.room ∧ decodePathSegment did = some w.did ∧
    decodePathSegment signature = some w.signature ∧ decodePathSegment nonce = some digits ∧
    decodePathSegment text = some w.sweptText ∧
    (∀ seg ∈ path.splitOn (cp '/'), ¬ IsDotSegment (cp '.') seg) ∧
    removeDotSegments (cp '/') (cp '.') path = path

/-- What of a write is encoded into its path can be. -/
structure Encodable (w : SignedWrite) : Prop where
  room : ∃ b, utf8 w.room = .ok b
  did : ∃ b, utf8 w.did = .ok b
  signature : ∃ b, utf8 w.signature = .ok b
  nonce : ∃ n : Nat, w.nonce = .int n ∧ n < 10 ^ 19
  text : ∃ b, utf8 w.sweptText = .ok b

/-- No part of a write that is accepted anyway is a dot segment. -/
structure Undotted (w : SignedWrite) : Prop where
  did : ¬ IsDotSegment (cp '.') w.did
  signature : ¬ IsDotSegment (cp '.') w.signature

theorem segment_isOk {t : PyStr} (h : ∃ b, utf8 t = .ok b) : ∃ x, encodePathSegment t = .ok x := by
  obtain ⟨b, hb⟩ := h
  exact ⟨_, map_eq_ok.mpr ⟨b, hb, rfl⟩⟩

/-- Digits need no escape. -/
theorem decode_decimalDigits (n : Nat) :
    cp '/' ∉ decimalDigits n ∧ ¬ IsDotSegment (cp '.') (decimalDigits n) ∧
      decodePathSegment (decimalDigits n) = some (decimalDigits n) := by
  have hno : ∀ c : Char, (cp c).isDigit = false → cp c ∉ decimalDigits n := by
    intro c hc hmem
    rw [isDigit_of_mem_decimalDigits hmem] at hc
    cases hc
  refine ⟨hno '/' (by decide), ?_, if_neg (hno '%' (by decide))⟩
  have hdot := hno '.' (by decide)
  rintro (h | h)
  · exact hdot (h ▸ List.mem_cons_self)
  · exact hdot (h ▸ List.mem_cons_self)

/-- **The segments of a path**, whatever is in the fields. -/
theorem path_segments {w : SignedWrite} (h : Encodable w) :
    ∃ path room did signature digits text, w.path = .ok path ∧ w.nonce.str = .ok digits ∧
      encodePathSegment w.room = .ok room ∧ encodePathSegment w.did = .ok did ∧
      encodePathSegment w.signature = .ok signature ∧ decodePathSegment digits = some digits ∧
      encodePathSegment w.sweptText = .ok text ∧ ¬ IsDotSegment (cp '.') digits ∧
      (∀ seg ∈ [py "r", room, py "say-signed", did, signature, digits, text], cp '/' ∉ seg) ∧
      path = [cp '/'].intercalate
        ([] :: [py "r", room, py "say-signed", did, signature, digits, text]) := by
  obtain ⟨room, hroom⟩ := segment_isOk h.room
  obtain ⟨did, hdid⟩ := segment_isOk h.did
  obtain ⟨signature, hsignature⟩ := segment_isOk h.signature
  obtain ⟨text, htext⟩ := segment_isOk h.text
  obtain ⟨n, hn, hlt⟩ := h.nonce
  have hdigits : w.nonce.str = .ok (decimalDigits n) := by
    rw [hn]
    exact strInt_natCast hlt
  obtain ⟨hslash, hdot, hdecode⟩ := decode_decimalDigits n
  refine ⟨_, room, did, signature, decimalDigits n, text, ?_, hdigits, hroom, hdid, hsignature, hdecode,
    htext, hdot, ?_, rfl⟩
  · simp only [SignedWrite.path, hroom, hdid, hsignature, hdigits, htext]
    refine congrArg Except.ok ?_
    simp [py, List.intercalate, List.intersperse]
  · intro seg hseg
    have hfixed : cp '/' ∉ py "r" ∧ cp '/' ∉ py "say-signed" := by decide
    simp only [List.mem_cons, List.not_mem_nil, or_false] at hseg
    rcases hseg with rfl | rfl | rfl | rfl | rfl | rfl | rfl
    · exact hfixed.1
    · exact slash_not_mem_encode hroom
    · exact hfixed.2
    · exact slash_not_mem_encode hdid
    · exact slash_not_mem_encode hsignature
    · exact hslash
    · exact slash_not_mem_encode htext

/-- Structure is kept exactly by the writes without dot segments. -/
theorem keepsStructure_iff {w : SignedWrite} (h : Encodable w) (hother : Undotted w) :
    KeepsStructure w ↔ ¬ IsDotSegment (cp '.') w.room ∧ ¬ IsDotSegment (cp '.') w.sweptText := by
  obtain ⟨path, room, did, signature, digits, text, hpath, hdigits, hroom, hdid, hsignature, hdecode,
    htext, hdot, hslash, rfl⟩ := path_segments h
  have hfree : ∀ seg ∈ [] :: [py "r", room, py "say-signed", did, signature, digits, text],
      cp '/' ∉ seg := by
    intro seg hs
    rcases List.mem_cons.mp hs with rfl | hs
    · exact List.not_mem_nil
    · exact hslash seg hs
  have hsplit := List.splitOn_intercalate (cp '/') hfree (List.cons_ne_nil _ _)
  rw [← isDotSegment_encode_iff hroom, ← isDotSegment_encode_iff htext]
  constructor
  · rintro ⟨path', room', did', signature', nonce', digits', text', hpath', -, hsegs, -, -, -, -, -,
      hnone, -⟩
    rw [hpath] at hpath'
    cases hpath'
    rw [hsplit] at hnone
    exact ⟨hnone _ (by simp), hnone _ (by simp)⟩
  · rintro ⟨hroomdot, htextdot⟩
    have hnone : ∀ seg ∈ [py "r", room, py "say-signed", did, signature, digits, text],
        ¬ IsDotSegment (cp '.') seg := by
      have hfixed : ¬ IsDotSegment (cp '.') (py "r") ∧ ¬ IsDotSegment (cp '.') (py "say-signed") := by
        decide
      intro seg hseg
      simp only [List.mem_cons, List.not_mem_nil, or_false] at hseg
      rcases hseg with rfl | rfl | rfl | rfl | rfl | rfl | rfl
      · exact hfixed.1
      · exact hroomdot
      · exact hfixed.2
      · exact fun hd => hother.did ((isDotSegment_encode_iff hdid).mp hd)
      · exact fun hd => hother.signature ((isDotSegment_encode_iff hsignature).mp hd)
      · exact hdot
      · exact htextdot
    refine ⟨_, room, did, signature, digits, digits, text, hpath, hdigits, hsplit,
      decode_encodePathSegment hroom, decode_encodePathSegment hdid,
      decode_encodePathSegment hsignature, hdecode, decode_encodePathSegment htext, ?_,
      (removeDotSegments_eq_self_iff hslash).mpr hnone⟩
    rw [hsplit]
    intro seg hs
    rcases List.mem_cons.mp hs with rfl | hs
    · exact not_isDotSegment_nil _
    · exact hnone seg hs

/-! ## What is built -/

theorem ascii_did {did : DidKey} : ∀ c ∈ did.did, c.val < 0x80 := by
  obtain ⟨key, hkey⟩ := did.valid
  have hall : ∀ c ∈ DID_PREFIX ++ MULTIBASE_BASE58BTC ++ b58Alphabet, c.val < 0x80 := by decide
  exact fun c hc => hall c (mem_encodeDidKey (decodeDidKey_iff_encodeDidKey.mp hkey) hc)

theorem not_isDotSegment_did {did : DidKey} : ¬ IsDotSegment (cp '.') did.did := by
  obtain ⟨key, hkey⟩ := did.valid
  rintro (h | h)
  · rw [h] at hkey
    cases hkey
  · rw [h] at hkey
    cases hkey

/-- A signature that verifies is ASCII, and no dot segment. -/
theorem signature_of_verify [Ed25519] {did signature : PyStr} {payload : Bytes}
    (h : verify did signature payload = .ok true) :
    (∀ c ∈ signature, c.val < 0x80) ∧ ¬ IsDotSegment (cp '.') signature := by
  cases hkey : decodeDidKey did with
  | error e =>
    simp only [verify, hkey] at h
    replace h : (if e.cls = .didKeyError ∨ e.cls = .signatureError then Except.ok false
      else .error e) = .ok true := h
    split at h <;> cases h
  | ok key =>
    cases hraw : decodeSignature signature with
    | error e =>
      simp only [verify, hkey, hraw] at h
      replace h : (if e.cls = .didKeyError ∨ e.cls = .signatureError then Except.ok false
        else .error e) = .ok true := h
      split at h <;> cases h
    | ok raw =>
      unfold decodeSignature at hraw
      split at hraw
      · cases hraw
      rename_i hlen
      split at hraw
      · cases hraw
      constructor
      · -- the decoder refuses what is not ASCII
        unfold urlsafeB64decode at hraw
        split at hraw
        · cases hraw
        · rename_i hdecode
          split at hdecode
          · cases hdecode
          · rename_i hany
            intro c hc
            by_contra hge
            refine hany (List.any_eq_true.mpr ⟨c, List.mem_append_left _ hc, ?_⟩)
            exact decide_eq_true (not_lt.mp hge)
      · rintro (rfl | rfl)
        · exact hlen (by decide)
        · exact hlen (by decide)

/-- What is built can be encoded. -/
theorem encodable_of_build [Ed25519] {signer : Signer} {room text : PyStr} {nonce : PyInt}
    {w : SignedWrite} (h : buildSignedMessage signer room nonce text = .ok w) :
    Encodable w ∧ Undotted w ∧ w.room = room ∧ w.sweptText = singleLineSweep text := by
  obtain ⟨payload, signature, hp, -, rfl, hv⟩ := buildSignedMessage_eq_ok.mp h
  obtain ⟨n, rfl, hn, ⟨-, -, hswept, -⟩, -⟩ := messagePayload_eq_ok.mp hp
  obtain ⟨_, -, hverify⟩ := verifyMessage_eq_true.mp hv
  obtain ⟨hascii, hdot⟩ := signature_of_verify hverify
  refine ⟨⟨?_, ⟨_, utf8_ascii ascii_did⟩, ⟨_, utf8_ascii hascii⟩, ⟨n, rfl, hn⟩, ?_⟩,
    ⟨not_isDotSegment_did, hdot⟩, rfl, rfl⟩
  · exact utf8_of_not_swept (singleLineSweep_eq_self_iff.mp hswept).1
  · exact utf8_of_not_swept fun c hc => not_swept_of_mem_sweep hc

/-- **When the URL of a write keeps its structure**: exactly if neither its room nor its swept text is one
dot or two. -/
theorem write_path_iff [Ed25519] {signer : Signer} {room text : PyStr} {nonce : PyInt} {w : SignedWrite}
    (h : buildSignedMessage signer room nonce text = .ok w) :
    KeepsStructure w ↔
      ¬ IsDotSegment (cp '.') room ∧ ¬ IsDotSegment (cp '.') (singleLineSweep text) := by
  obtain ⟨hencodable, hother, hroom, htext⟩ := encodable_of_build h
  rw [keepsStructure_iff hencodable hother, hroom, htext]

section Lobby

attribute [local instance] acceptAll

/-- The write of a text, signed with zeros. -/
theorem lobby_built (text : PyStr)
    (h : (messagePayload (py "lobby") (.int 5) text).isOk = true) :
    ∃ w, buildSignedMessage (ephemeralSigner zeroHandle) (py "lobby") (.int 5) text = .ok w := by
  have hhonest : Honest (ephemeralSigner zeroHandle) := honest_ephemeralSigner fun _ => rfl
  cases hp : messagePayload (py "lobby") (.int 5) text with
  | error e =>
    rw [hp] at h
    cases h
  | ok payload =>
    obtain ⟨signature, hs, hv⟩ := hhonest.verify payload
    exact ⟨_, buildSignedMessage_eq_ok.mpr ⟨payload, signature, hp, hs, rfl,
      verifyMessage_eq_true.mpr ⟨payload, (messagePayload_congr (singleLineSweep_idem text)).trans hp, hv⟩⟩⟩

/-- **A text that is taken for structure**: `..` is signed, verified, and takes its nonce along. -/
theorem dots_change_path : ¬ ∀ (signer : Signer) room nonce text w,
    buildSignedMessage signer room nonce text = .ok w → KeepsStructure w := by
  intro hall
  obtain ⟨w, hw⟩ := lobby_built (py "..") (by decide)
  obtain ⟨hencodable, hother, -, htext⟩ := encodable_of_build hw
  refine ((keepsStructure_iff hencodable hother).mp (hall _ _ _ _ w hw)).2 ?_
  rw [htext]
  decide

theorem write_path_iff_lobby :
    ∃ w, buildSignedMessage (ephemeralSigner zeroHandle) (py "lobby") (.int 5) (py "hello") = .ok w ∧
      KeepsStructure w := by
  obtain ⟨w, hw⟩ := lobby_built (py "hello") (by decide)
  exact ⟨w, hw, (write_path_iff hw).mpr ⟨by decide, by decide⟩⟩

end Lobby

end FlopOffice.Technocore
