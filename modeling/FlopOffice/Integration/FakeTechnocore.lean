/-
# FlopOffice.Integration.FakeTechnocore — the stand-in server of the integration tests.

The stand-in decodes base58 and checks signatures with code of its own, so that a mistake in `identity/`
cannot hide on both sides of the wire. That the two pairs of decoders are nevertheless the same functions
on everything that verifies is `accepts_iff_verify`.

A request is taken as `urlparse` and `parse_qsl` leave it: a path, and the pairs of its query. A handler
that raises closes the connection, and the client sees a `RemoteProtocolError`. `time.monotonic` and the
time stamp of a record are arguments of the step.
-/
import Mathlib.Data.List.Sort
import FlopOffice.Identity.SignatureText
import FlopOffice.Python.Dict
import FlopOffice.Python.Unquote
import FlopOffice.Technocore.RateLimit
import FlopOffice.Technocore.Surroundings

namespace FlopOffice.Integration

open FlopOffice.Identity FlopOffice.Lib FlopOffice.Python FlopOffice.Technocore

/-! ## The decoders -/

/-- `_ALPHABET`. -/
def ALPHABET : PyStr :=
  py "123456789ABCDEFGHJKLMNPQRSTUVWXYZ" ++ py "abcdefghijkmnopqrstuvwxyz"

/-- `_ALPHABET.find(char)`. -/
def alphabetFind (c : CodePoint) : Int := if c ∈ ALPHABET then ALPHABET.idxOf c else -1

/-- The loop of `_b58decode` over the characters. -/
def b58Num (num : Nat) : PyStr → Except Exc Nat
  | [] => .ok num
  | c :: text =>
    let index := alphabetFind c
    if index < 0 then .error ⟨.valueError, py "bad base58 character"⟩
    else b58Num (num * 58 + index.toNat) text

/-- `while num: num, rem = divmod(num, 256); raw.append(rem)`. -/
def b58Raw (num : Nat) (raw : Bytes) : Bytes :=
  if num = 0 then raw else b58Raw (num / 256) (raw ++ [UInt8.ofNat (num % 256)])
termination_by num
decreasing_by omega

/-- `data.rjust(width, b"\x00")`. -/
def rjust (data : Bytes) (width : Nat) : Bytes := List.replicate (width - data.length) 0 ++ data

/-- `_b58decode`. -/
def b58decodeIndependent (text : PyStr) : Except Exc Bytes := do
  let num ← b58Num 0 text
  let raw := b58Raw num []
  let pad := text.length - (text.dropWhile fun c => c == cp '1').length
  pure (rjust raw.reverse (raw.length + pad))

/-- `Ed25519PublicKey.from_public_bytes`. -/
def fromPublicBytes (data : Bytes) : Except Exc Bytes :=
  if data.length ≠ 32 then .error ⟨.valueError, py "An Ed25519 public key is 32 bytes long"⟩ else .ok data

/-- `_pubkey_from_did`. -/
def pubkeyFromDid (did : PyStr) : Except Exc Bytes :=
  if ¬ py "did:key:z" <+: did then .error ⟨.valueError, py "not a base58btc did:key"⟩
  else do
    let decoded ← b58decodeIndependent (did.drop (py "did:key:z").length)
    if decoded.take 2 ≠ [0xed, 0x01] then throw ⟨.valueError, py "not ed25519-pub"⟩
    fromPublicBytes (decoded.drop 2)

/-- `_b64url_decode`. -/
def b64urlDecode (text : PyStr) : Except Exc Bytes :=
  if text.length ≠ 86 then .error ⟨.valueError, py "signature must be 86 chars"⟩
  else urlsafeB64decode (text ++ py "==")

/-- `_pubkey_from_did(did).verify(_b64url_decode(sig), payload)`, and the handler around it. A signature
that has not 64 bytes is an invalid one. -/
def accepts [Ed25519] (did sig : PyStr) (payload : Bytes) : Except Exc Bool :=
  let parts : Except Exc (Bytes × Bytes) := do
    let key ← pubkeyFromDid did
    let raw ← b64urlDecode sig
    pure (key, raw)
  match parts with
  | .ok (key, raw) => .ok (raw.length == 64 && Ed25519.verify key raw payload)
  | .error e => if e.cls.isValueError then .ok false else .error e

/-! ### The same functions -/

theorem b58Num_eq (num : Nat) (text : PyStr) :
    b58Num num text = if ∀ c ∈ text, c ∈ b58Alphabet then
        .ok ((text.map b58Index).foldl (fun n d => n * 58 + d) num)
      else .error ⟨.valueError, py "bad base58 character"⟩ := by
  have hsame : ALPHABET = b58Alphabet := rfl
  induction text generalizing num with
  | nil => simp [b58Num]
  | cons c text ih =>
    unfold b58Num alphabetFind
    rw [hsame]
    by_cases hc : c ∈ b58Alphabet
    · simp only [ih, List.forall_mem_cons, hc, true_and, List.map_cons, List.foldl_cons]
      rfl
    · simp [hc]

theorem b58Raw_eq (num : Nat) (raw : Bytes) :
    b58Raw num raw = raw ++ (Nat.digits 256 num).map UInt8.ofNat := by
  induction num using Nat.strong_induction_on generalizing raw with
  | _ num ih =>
    unfold b58Raw
    split
    · rename_i h0
      rw [h0, Nat.digits_zero, List.map_nil, List.append_nil]
    · rename_i h0
      rw [ih (num / 256) (by omega), Nat.digits_def' (by decide) (Nat.pos_of_ne_zero h0), List.map_cons,
        List.append_assoc, List.singleton_append]

theorem length_sub_dropWhile (p : CodePoint → Bool) (text : PyStr) :
    text.length - (text.dropWhile p).length = (text.takeWhile p).length := by
  have hlen := congrArg List.length (List.takeWhile_append_dropWhile (p := p) (l := text))
  rw [List.length_append] at hlen
  omega

/-- **Base58 on both sides**: the decoders differ on the empty text only, which is no key. -/
theorem b58decodeIndependent_eq_ok {text : PyStr} {data : Bytes} :
    b58decodeIndependent text = .ok data ↔ (text = [] ∧ data = []) ∨ b58decode text = .ok data := by
  have hjust : ∀ num, rjust (b58Raw num []).reverse ((b58Raw num []).length +
      (text.length - (text.dropWhile fun c => c == cp '1').length)) =
      ((text.takeWhile fun c => c == cp '1').map fun _ => 0) ++ minimalBytes num := by
    intro num
    rw [length_sub_dropWhile, rjust, List.length_reverse, Nat.add_sub_cancel_left, b58Raw_eq,
      List.nil_append, minimalBytes, List.map_const']
  have hascii : ∀ c ∈ b58Alphabet, ¬ 0x80 ≤ c.val := by decide
  simp only [b58decodeIndependent, hjust, b58Num_eq]
  by_cases hall : ∀ c ∈ text, c ∈ b58Alphabet
  · rw [if_pos hall]
    by_cases hnil : text = []
    · subst hnil
      have hnone : b58decode [] ≠ .ok data := fun h => (b58decode_eq_ok.mp h).1 rfl
      show (Except.ok _ : Except Exc Bytes) = .ok data ↔ _
      simp [hnone, minimalBytes, eq_comm]
    · have hany : ¬ text.any (fun c => 0x80 ≤ c.val) = true := by
        rw [List.any_eq_true]
        rintro ⟨c, hc, hge⟩
        exact hascii c (hall c hc) (of_decide_eq_true hge)
      rw [b58decode, if_neg hnil, if_neg hany, b58Value_eq hall]
      simp only [hnil, false_and, false_or]
  · rw [if_neg hall]
    refine iff_of_false (fun h => by cases h) ?_
    rintro (⟨rfl, -⟩ | h)
    · exact hall fun c hc => absurd hc List.not_mem_nil
    · exact hall (b58decode_eq_ok.mp h).2.1

/-- **The keys on both sides.** -/
theorem pubkeyFromDid_eq_ok {did : PyStr} {key : Bytes} :
    pubkeyFromDid did = .ok key ↔ decodeDidKey did = .ok key := by
  have hprefix : DID_PREFIX ++ MULTIBASE_BASE58BTC = py "did:key:z" := by decide
  rw [decodeDidKey_eq_ok, hprefix]
  unfold pubkeyFromDid
  split
  · rename_i h
    refine iff_of_false (fun h => by cases h) ?_
    rintro ⟨text, rfl, -⟩
    exact h (List.prefix_append _ _)
  · rename_i h
    obtain ⟨text, rfl⟩ := not_not.mp h
    rw [List.drop_left]
    simp only [bind_eq_ok, b58decodeIndependent_eq_ok]
    constructor
    · rintro ⟨decoded, hd, hrest⟩
      split at hrest
      · cases hrest
      · rename_i hcodec
        rw [not_not] at hcodec
        unfold fromPublicBytes at hrest
        split at hrest
        · cases hrest
        · rename_i hlen
          cases hrest
          rcases hd with ⟨-, rfl⟩ | hd
          · cases hcodec
          · refine ⟨text, rfl, ?_, not_not.mp hlen⟩
            rw [hd, ← List.take_append_drop 2 decoded, hcodec]
            rfl
    · rintro ⟨t, heq, hd, hlen⟩
      rw [← List.append_cancel_left heq] at hd
      refine ⟨_, Or.inr hd, ?_⟩
      have htake : (ED25519_MULTICODEC ++ key).take 2 = [0xed, 0x01] := rfl
      have hdrop : (ED25519_MULTICODEC ++ key).drop 2 = key := rfl
      rw [htake, hdrop, if_neg (not_not.mpr rfl)]
      exact if_neg (not_not.mpr hlen)

theorem pubkeyFromDid_error {did : PyStr} {e : Exc} (h : pubkeyFromDid did = .error e) :
    e.cls = .valueError := by
  unfold pubkeyFromDid at h
  split at h
  · cases h
    rfl
  rcases bind_eq_error.mp h with h | ⟨decoded, -, h⟩
  · unfold b58decodeIndependent at h
    rcases bind_eq_error.mp h with h | ⟨_, -, h⟩
    · rw [b58Num_eq] at h
      split at h
      · cases h
      · cases h
        rfl
    · cases h
  · split at h
    · cases h
      rfl
    · unfold fromPublicBytes at h
      split at h
      · cases h
        rfl
      · cases h

theorem a2bBase64_error {quadPos left pads : Nat} {text : PyStr} {e : Exc}
    (h : a2bBase64 quadPos left pads text = .error e) : e.cls = .valueError := by
  have hmap : ∀ {x : Except Exc Bytes} {b : UInt8}, x.map (b :: ·) = .error e → x = .error e := by
    intro x b hx
    cases x with
    | ok data => cases hx
    | error e' =>
      cases hx
      rfl
  induction text generalizing quadPos left pads with
  | nil =>
    rw [a2bBase64] at h
    split at h
    · cases h
    · cases h
      rfl
  | cons c text ih =>
    rw [a2bBase64] at h
    split at h
    · split at h
      · split at h
        · cases h
        · exact ih h
      · exact ih h
    · split at h
      · exact ih h
      · split at h
        · exact ih h
        · exact ih (hmap h)
        · exact ih (hmap h)
        · exact ih (hmap h)

theorem b64urlDecode_error {text : PyStr} {e : Exc} (h : b64urlDecode text = .error e) :
    e.cls = .valueError := by
  unfold b64urlDecode urlsafeB64decode at h
  split at h
  · cases h
    rfl
  split at h
  · cases h
    rfl
  · exact a2bBase64_error h

/-- 64 bytes take all 86 characters, so there is no padding among them. -/
theorem pad_not_mem_of_b64urlDecode {text : PyStr} {raw : Bytes} (h : b64urlDecode text = .ok raw)
    (hraw : raw.length = 64) : cp '=' ∉ text := by
  unfold b64urlDecode urlsafeB64decode at h
  split at h
  · cases h
  rename_i hlen
  split at h
  · cases h
  have hbits := length_of_a2bBase64 h
  have hpads : ((py "==").countP fun c => (base64Value c).isSome) = 0 := by decide
  have hpad : (base64Value (cp '=')).isSome = false := by decide
  rw [List.countP_append, hpads, hraw] at hbits
  simp only [heldBits] at hbits
  have hle : (text.countP fun c => (base64Value c).isSome) ≤ text.length := List.countP_le_length
  have hfull : (text.countP fun c => (base64Value c).isSome) = text.length := by omega
  intro hmem
  have hdigit := List.countP_eq_length.mp hfull _ hmem
  rw [hpad] at hdigit
  cases hdigit

/-- **The signatures on both sides**, of those with 64 bytes. -/
theorem b64urlDecode_eq_ok {text : PyStr} {raw : Bytes} :
    (b64urlDecode text = .ok raw ∧ raw.length = 64) ↔ decodeSignature text = .ok raw := by
  rw [decodeSignature_eq_ok]
  constructor
  · rintro ⟨h, hraw⟩
    have hpad := pad_not_mem_of_b64urlDecode h hraw
    unfold b64urlDecode at h
    split at h
    · cases h
    · rename_i hlen
      exact ⟨not_not.mp hlen, hpad, h, hraw⟩
  · rintro ⟨hlen, -, h, hraw⟩
    refine ⟨?_, hraw⟩
    unfold b64urlDecode
    exact (if_neg (not_not.mpr hlen)).trans h

section Verify

variable [Ed25519]

/-- The check never raises, and it accepts what the two decoders of `identity` read and the key verifies. -/
theorem accepts_eq_ok (did sig : PyStr) (payload : Bytes) :
    ∃ b, accepts did sig payload = .ok b ∧ (b = true ↔ ∃ key raw, decodeDidKey did = .ok key ∧
      decodeSignature sig = .ok raw ∧ Ed25519.verify key raw payload = true) := by
  unfold accepts
  cases hkey : pubkeyFromDid did with
  | error e =>
    have hcls : e.cls.isValueError = true := by
      rw [pubkeyFromDid_error hkey]
      rfl
    refine ⟨false, if_pos hcls, iff_of_false (fun h => by cases h) ?_⟩
    rintro ⟨key, _, hdecode, -⟩
    rw [pubkeyFromDid_eq_ok.mpr hdecode] at hkey
    cases hkey
  | ok key =>
    cases hsig : b64urlDecode sig with
    | error e =>
      have hcls : e.cls.isValueError = true := by
        rw [b64urlDecode_error hsig]
        rfl
      refine ⟨false, if_pos hcls, iff_of_false (fun h => by cases h) ?_⟩
      rintro ⟨_, raw, -, hdecode, -⟩
      rw [(b64urlDecode_eq_ok.mpr hdecode).1] at hsig
      cases hsig
    | ok raw =>
      refine ⟨_, rfl, ?_⟩
      rw [Bool.and_eq_true, beq_iff_eq]
      constructor
      · rintro ⟨hlen, hv⟩
        exact ⟨key, raw, pubkeyFromDid_eq_ok.mp hkey, b64urlDecode_eq_ok.mp ⟨hsig, hlen⟩, hv⟩
      · rintro ⟨key', raw', hdid, hdecode, hv⟩
        obtain ⟨hraw', hlen⟩ := b64urlDecode_eq_ok.mpr hdecode
        rw [hsig] at hraw'
        rw [pubkeyFromDid_eq_ok.mpr hdid] at hkey
        cases hraw'
        cases hkey
        exact ⟨hlen, hv⟩

/-- **Two verifiers, one answer.** The check of the stand-in never raises, and it accepts a signature
exactly if `verify` does: for every did, every signature text and every payload. -/
theorem accepts_iff_verify (did sig : PyStr) (payload : Bytes) :
    ∃ b, accepts did sig payload = .ok b ∧ (b = true ↔ verify did sig payload = .ok true) := by
  obtain ⟨b, hb, hread⟩ := accepts_eq_ok did sig payload
  exact ⟨b, hb, hread.trans verify_eq_true.symm⟩

end Verify

/-! ## The state -/

/-- `INVISIBLE_CATEGORIES`. -/
def INVISIBLE_CATEGORIES : List Category := [.Cc, .Cf, .Cs, .Co, .Zl, .Zp]

/-- `single_line_sweep` of the stand-in. -/
def serverSweep (text : PyStr) : PyStr :=
  strip (text.map fun c => if category c ∈ INVISIBLE_CATEGORIES then cp ' ' else c)

theorem serverSweep_eq (text : PyStr) : serverSweep text = singleLineSweep text := by
  have hmem : ∀ k : Category, k ∈ INVISIBLE_CATEGORIES ↔ k ≠ .other := by
    intro k
    cases k <;> decide
  show _ = strip (sweepChars DEFAULT_SWEEP text)
  rw [sweepChars_default, serverSweep]
  simp only [hmem, isSwept, decide_eq_true_eq]

/-- A stored record; `sender` is its `from`. It has no signature. -/
structure Stored where
  seq : Nat
  ts : PyStr
  sender : PyStr
  nonce : Int
  text : PyStr
  deriving DecidableEq

/-- The record as it is served. -/
def Stored.json (m : Stored) : PyVal :=
  .record [(py "seq", .leaf (.int m.seq)), (py "ts", .leaf (.str m.ts)),
    (py "from", .leaf (.str m.sender)), (py "nonce", .leaf (.int m.nonce)),
    (py "text", .leaf (.str m.text))]

/-- `FakeTechnocoreState`, without its lock. -/
structure FakeTechnocoreState where
  rooms : List (PyStr × List Stored)
  nextSeq : Nat
  /-- By did and room. -/
  nonces : List ((PyStr × PyStr) × Int)
  writesPerMinute : Int
  readsPerMinute : Int
  writeTimes : List ℚ

/-- `FakeTechnocoreState()`. -/
def FakeTechnocoreState.initial (writesPerMinute : Int := 30) (readsPerMinute : Int := 120) :
    FakeTechnocoreState := ⟨[], 1, [], writesPerMinute, readsPerMinute, []⟩

namespace FakeTechnocoreState

/-- `rate_limited`, at the time `now`: whether the request is refused, and the times of the others of the
last minute. -/
def rateLimited (s : FakeTechnocoreState) (now : ℚ) : Bool × FakeTechnocoreState :=
  let times := s.writeTimes.filter fun t => now - t < 60
  if (times.length : Int) ≥ s.writesPerMinute then (true, { s with writeTimes := times })
  else (false, { s with writeTimes := times ++ [now] })

/-- `self.state.rooms.get(room, [])`. -/
def room (s : FakeTechnocoreState) (name : PyStr) : List Stored := (dictGet s.rooms name).getD []

/-- `self.state.nonces.get((did, room), 0)`. -/
def lastNonce (s : FakeTechnocoreState) (did room : PyStr) : Int := (dictGet s.nonces (did, room)).getD 0

/-- The record of an accepted write: the nonce is taken, the counter goes up, the record is last in its
room. -/
def store (s : FakeTechnocoreState) (room did : PyStr) (nonce : Int) (text ts : PyStr) :
    FakeTechnocoreState :=
  { s with
    nonces := dictSet (did, room) nonce s.nonces
    nextSeq := s.nextSeq + 1
    rooms := dictSet room (s.room room ++ [⟨s.nextSeq, ts, did, nonce, text⟩]) s.rooms }

end FakeTechnocoreState

/-! ## The handlers -/

/-- What the client gets: a response, or a closed connection. -/
abbrev Reply := Except GetError Response

/-- The handler raised. -/
def dropped : Reply := .error (.http .RemoteProtocolError)

/-- A response with another status. -/
def withStatus (r : Response) (code : Fin 1000) : Response :=
  { r with statusCode := code, status_lt := code.isLt }

/-- `_send`; what `json.dumps` cannot write raises. -/
def sendJson (code : Fin 1000) (payload : PyVal) : Reply :=
  if h : payload.isJson = true then .ok (withStatus (.ofJson payload h) code) else dropped

/-- A payload that is computed first. -/
def sendResult (code : Fin 1000) : Except Exc PyVal → Reply
  | .ok payload => sendJson code payload
  | .error _ => dropped

/-- `{"error": text}` -/
def errorJson (text : PyStr) : PyVal := .record [(py "error", .leaf (.str text))]

/-- `{"ok": True, "seq": seq}` -/
def storedJson (seq : Nat) : PyVal :=
  .record [(py "ok", .leaf (.bool true)), (py "seq", .leaf (.int seq))]

section Handlers

variable [PyRuntime] [PyBuiltins] [Ed25519]

/-- The bytes a write has to be signed over: `f"{room}|{nonce}|{swept}".encode("utf-8")`. -/
def signedBytes (room : PyStr) (nonce : Int) (swept : PyStr) : Except Exc Bytes := do
  let digits ← strInt nonce
  utf8 (room ++ cp '|' :: (digits ++ cp '|' :: swept))

/-- `_say_signed`. -/
def saySigned (room did sig nonceText text : PyStr) (now : ℚ) (ts : PyStr) (s : FakeTechnocoreState) :
    Reply × FakeTechnocoreState :=
  let (limited, s) := s.rateLimited now
  if limited then
    (sendJson 429 (.record [(py "error", .leaf (.str (py "rate limited"))),
      (py "retry_after", .leaf (.int 2))]), s)
  else if !(isdigit nonceText) || !(decide (1 ≤ nonceText.length ∧ nonceText.length ≤ 19)) then
    (sendJson 400 (errorJson (py "nonce must be 1-19 digits")), s)
  else match parseInt nonceText with
    | .error _ => (dropped, s)
    | .ok nonce =>
      let swept := serverSweep text
      match signedBytes room nonce swept with
      | .error _ => (dropped, s)
      | .ok payload =>
        match accepts did sig payload with
        | .error _ => (dropped, s)
        | .ok false => (sendJson 403 (errorJson (py "bad signature")), s)
        | .ok true =>
          let last := s.lastNonce did room
          if nonce ≤ last then
            (sendResult 400 do
              let a ← strInt nonce
              let b ← strInt last
              pure (.record [(py "error", .leaf (.str (py "nonce " ++ a ++ py " is not greater than " ++ b))),
                (py "last_nonce", .leaf (.int last))]), s)
          else (sendJson 200 (storedJson s.nextSeq), s.store room did nonce swept ts)

omit [PyBuiltins] [Ed25519] in
/-- `messages[start:]`. -/
def sliceFrom {α : Type} (start : Int) (items : List α) : List α :=
  items.drop (if start < 0 then (items.length + start).toNat else start.toNat)

/-- A request: the path of its target, and the pairs of its query. -/
structure Request where
  path : PyStr
  query : List (PyStr × PyStr)

/-- `query.get(name)[0]`, if there is one. -/
def Request.param (r : Request) (name : PyStr) : Option PyStr :=
  (r.query.find? fun kv => kv.1 = name).map Prod.snd

/-- The records a room read returns: those after `since`, and the last `limit` of them. `since` is read
for each record, so not where there is none. -/
def selectMessages (since limit : Option PyStr) (messages : List Stored) : Except Exc (List Stored) := do
  let messages ← match since with
    | some t =>
      if messages.isEmpty then .ok messages
      else do
        let c ← parseInt t
        pure (messages.filter fun m => c < m.seq)
    | none => .ok messages
  match limit with
  | some t => do
    let n ← parseInt t
    pure (sliceFrom (-n) messages)
  | none => .ok messages

/-- The payload of a room read. -/
def roomJson (room : PyStr) (messages : List Stored) : PyVal :=
  .record [(py "room", .leaf (.str room)), (py "messages", .list (messages.map Stored.json)),
    (py "first_seq", match messages with
      | [] => .leaf .none
      | m :: _ => .leaf (.int m.seq))]

/-- The payload of `/rooms`: the names in order. -/
def roomsJson (s : FakeTechnocoreState) : PyVal :=
  .record [(py "rooms", .list (((s.rooms.map Prod.fst).insertionSort fun a b => strLe a b = true).map
    fun name => .record [(py "room", .leaf (.str name)),
      (py "topic", .leaf (.str (py "topic for " ++ name)))]))]

/-- The payload of `/.well-known/agent.json`. -/
def agentJson (s : FakeTechnocoreState) : PyVal :=
  .record [(py "service", .leaf (.str (py "fake-technocore"))),
    (py "limits", .record [(py "reads_per_minute_per_ip", .leaf (.int s.readsPerMinute)),
      (py "writes_per_minute_per_ip", .leaf (.int s.writesPerMinute))])]

/-- `s.strip("/")`. -/
def stripSlashes (s : PyStr) : PyStr :=
  (s.dropWhile fun c => c == cp '/').rdropWhile fun c => c == cp '/'

/-- `[unquote(p) for p in parsed.path.strip("/").split("/")]` -/
def Request.parts (r : Request) : List PyStr := ((stripSlashes r.path).splitOn (cp '/')).map unquote

/-- `do_GET`. -/
def doGet (r : Request) (now : ℚ) (ts : PyStr) (s : FakeTechnocoreState) : Reply × FakeTechnocoreState :=
  if r.path = py "/.well-known/agent.json" then (sendJson 200 (agentJson s), s)
  else if r.path = py "/rooms" then (sendJson 200 (roomsJson s), s)
  else
    let notFound := (sendJson 404 (errorJson (py "not found")), s)
    match r.parts with
    | root :: room :: verb :: did :: sig :: nonceText :: text :: more =>
      if root = py "r" ∧ verb = py "say-signed" then
        saySigned room did sig nonceText ([cp '/'].intercalate (text :: more)) now ts s
      else notFound
    | [root, room] =>
      if root = py "r" then
        (sendResult 200 ((selectMessages (r.param (py "since")) (r.param (py "limit")) (s.room room)).map
          (roomJson room)), s)
      else notFound
    | _ => notFound

end Handlers

end FlopOffice.Integration
