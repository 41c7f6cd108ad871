/-
# FlopOffice.Identity.Canonical — the bytes a Technocore signature covers.

The sweep, the three validators and the two payload builders. Arguments are strings: what is refused
for not being one, or for carrying the untrusted marker, has no place in `PyStr`.

A room is anything without invisible characters and separators, a name is 1 to 48 characters of a
small alphabet, a nonce is 1 to 19 decimal digits, and the text is free. What is proved here is which
bytes the builders produce (`messagePayload_eq_ok`, `notePayload_eq_ok`), in terms of the parts that
were accepted.
-/
import FlopOffice.Lib.Regex
import FlopOffice.Python.Json

namespace FlopOffice.Identity

open FlopOffice.Lib FlopOffice.Python

/-! ## Limits -/

def MAX_MESSAGE_CHARS : Nat := 4096
def MAX_NOTE_BYTES : Nat := 8 * 1024
def MAX_NONCE_DIGITS : Nat := 19

/-! ## The sweep -/

/-- The sweep's parameters. -/
structure SweepPolicy where
  replaceWithSpace : Bool := true
  trimEnds : Bool := true
  collapseRuns : Bool := false

def DEFAULT_SWEEP : SweepPolicy := {}

/-- `unicodedata.category(char) in _SWEEP_CATEGORIES`. -/
def isSwept (c : CodePoint) : Bool := category c ≠ .other

/-- The loop of the sweep. -/
def sweepChars (policy : SweepPolicy) (text : PyStr) : PyStr :=
  text.flatMap fun c =>
    if isSwept c then (if policy.replaceWithSpace then [cp ' '] else []) else [c]

/-- `" ".join(part for part in s.split(" ") if part)`. -/
def collapseSpaces (s : PyStr) : PyStr :=
  List.intercalate [cp ' '] ((s.splitOn (cp ' ')).filter fun part => !part.isEmpty)

/-- `single_line_sweep`: sweep, then trim. -/
def singleLineSweep (text : PyStr) (policy : SweepPolicy := DEFAULT_SWEEP) : PyStr :=
  let result := sweepChars policy text
  let result := if policy.collapseRuns then collapseSpaces result else result
  if policy.trimEnds then strip result else result

/-- Refuse text that is empty after the sweep. -/
def requireNonEmpty (swept : PyStr) : Except Exc PyStr :=
  if swept = [] then
    .error ⟨.canonicalisationError, py "nothing visible survives the single-line sweep; " ++
      py "the server refuses this with HTTP 400. Send at least one visible character."⟩
  else .ok swept

/-! ## The validators -/

/-- `[a-z0-9]` -/
def nameStart (c : CodePoint) : Bool := (0x61 ≤ c.val && c.val ≤ 0x7a) || c.isDigit

/-- `[a-z0-9_-]` -/
def nameChar (c : CodePoint) : Bool := nameStart c || c == cp '_' || c == cp '-'

/-- `$` without MULTILINE: the end, or a line feed at the end. -/
def endOfText : Regex CodePoint := .look fun _ after => after == [] || after == [cp '\n']

/-- `^[a-z0-9][a-z0-9_-]{0,47}$`, which `match` tries at the start only. -/
def NAME_RE : Regex CodePoint :=
  .seq (.one nameStart) (.seq (.many nameChar 0 (some 47) true) endOfText)

/-- `pattern.match(text) is not None`. -/
def matchStart (pattern : Regex CodePoint) (text : PyStr) : Bool :=
  !(pattern.ends ⟨[], text⟩).isEmpty

/-- Validate a name segment. -/
def validateName [PyRuntime] (value kind : PyStr) : Except Exc PyStr :=
  if matchStart NAME_RE value then .ok value
  else .error ⟨.canonicalisationError, kind ++ py " " ++ pyRepr value ++
    py " is not a valid Technocore name: expected /^[a-z0-9][a-z0-9_-]" ++
    cp '{' :: py "0,47" ++ cp '}' :: py "$/ (lowercase letters, digits, - and _, " ++
    py "1-48 characters, starting with a letter or digit)"⟩

/-- Validate a room name. -/
def validateRoom (room : PyStr) : Except Exc PyStr :=
  if room = [] then .error ⟨.canonicalisationError, py "room must not be empty"⟩
  else if room.length > 128 then
    .error ⟨.canonicalisationError, py "room name is implausibly long (>128 chars)"⟩
  else if room ≠ singleLineSweep room then
    .error ⟨.canonicalisationError, py "room must not contain invisible characters"⟩
  else if cp '|' ∈ room then
    .error ⟨.canonicalisationError,
      py "room must not contain '|': it is the payload field separator"⟩
  else if cp '/' ∈ room ∨ cp '?' ∈ room ∨ cp '#' ∈ room then
    .error ⟨.canonicalisationError, py "room must not contain URL structural characters"⟩
  else .ok room

/-- Validate a nonce: 1 to 19 decimal digits. -/
def validateNonce : PyInt → Except Exc Int
  | .bool _ => .error ⟨.canonicalisationError, py "nonce must be an int"⟩
  | .int nonce =>
    if nonce < 0 then .error ⟨.canonicalisationError, py "nonce must not be negative"⟩
    else do
      let digits ← strInt nonce
      if digits.length > MAX_NONCE_DIGITS then
        throw ⟨.canonicalisationError, py "nonce must be at most 19 digits"⟩
      pure nonce

/-! ## The payloads -/

/-- Exact bytes covered by a room-message signature. -/
def messagePayload (room : PyStr) (nonce : PyInt) (text : PyStr)
    (policy : SweepPolicy := DEFAULT_SWEEP) (alreadySwept : Bool := false) : Except Exc Bytes := do
  let room ← validateRoom room
  let nonce ← validateNonce nonce
  let swept ← requireNonEmpty (if alreadySwept then text else singleLineSweep text policy)
  if swept.length > MAX_MESSAGE_CHARS then
    throw ⟨.canonicalisationError, py "message is " ++ decimalDigits swept.length ++
      py " chars, server limit is 4096"⟩
  let digits ← strInt nonce
  utf8 (room ++ cp '|' :: (digits ++ cp '|' :: swept))

/-- Exact bytes covered by a kv-note signature. -/
def notePayload [PyRuntime] (namespace_ key : PyStr) (nonce : PyInt) (value : PyStr)
    (policy : SweepPolicy := DEFAULT_SWEEP) (alreadySwept : Bool := false) : Except Exc Bytes := do
  let namespace_ ← validateName namespace_ (py "namespace")
  let key ← validateName key (py "key")
  let nonce ← validateNonce nonce
  let swept ← requireNonEmpty (if alreadySwept then value else singleLineSweep value policy)
  let digits ← strInt nonce
  let encoded ← utf8 (namespace_ ++ cp '|' :: (key ++ cp '|' :: (digits ++ cp '|' :: swept)))
  let value ← utf8 swept
  if value.length > MAX_NOTE_BYTES then
    throw ⟨.canonicalisationError, py "note value exceeds the 8192-byte server limit"⟩
  pure encoded

/-! ## Path segments -/

/-- The characters `quote` leaves alone: `[A-Za-z0-9_.~-]`. -/
def isUnreserved (c : CodePoint) : Bool := c.isAsciiAlnum || c ∈ py "_.-~"

/-- One uppercase hexadecimal digit. -/
def hexDigitUpper (n : Nat) : CodePoint := (py "0123456789ABCDEF").getD (n % 16) (cp '0')

/-- One byte of a quoted text. -/
def quoteByte (b : UInt8) : PyStr :=
  let c : CodePoint := ⟨b.toNat, byte_lt b⟩
  if isUnreserved c then [c] else [cp '%', hexDigitUpper (b.toNat / 16), hexDigitUpper b.toNat]

/-- Percent-encode one URL path segment. -/
def encodePathSegment (text : PyStr) : Except Exc PyStr :=
  (utf8 text).map fun data => data.flatMap quoteByte

/-! ## What the sweep leaves -/

theorem isSwept_space : isSwept (cp ' ') = false := by
  decide

theorem isSwept_of_isSurrogate {c : CodePoint} (h : c.isSurrogate = true) : isSwept c = true := by
  unfold isSwept category
  rw [if_pos h]
  split
  · rfl
  split
  · rfl
  · rfl

theorem sweepChars_default (text : PyStr) :
    sweepChars DEFAULT_SWEEP text = text.map fun c => if isSwept c then cp ' ' else c := by
  rw [← List.flatMap_pure_eq_map]
  refine List.flatMap_congr fun c _ => ?_
  show (if isSwept c then [cp ' '] else [c]) = [if isSwept c then cp ' ' else c]
  split <;> rfl

/-- Nothing invisible survives the default sweep. -/
theorem not_swept_of_mem_sweep {text : PyStr} {c : CodePoint} (h : c ∈ singleLineSweep text) :
    isSwept c = false := by
  have hc : c ∈ sweepChars DEFAULT_SWEEP text := mem_of_mem_strip h
  rw [sweepChars_default] at hc
  obtain ⟨d, -, rfl⟩ := List.mem_map.mp hc
  split
  · exact isSwept_space
  · rename_i hd
    simpa using hd

/-- The fixed points of the default sweep. -/
theorem singleLineSweep_eq_self_iff {text : PyStr} :
    singleLineSweep text = text ↔ (∀ c ∈ text, isSwept c = false) ∧ strip text = text := by
  constructor
  · intro h
    refine ⟨fun c hc => ?_, ?_⟩
    · have hmem : c ∈ singleLineSweep text := by rwa [h]
      exact not_swept_of_mem_sweep hmem
    · have hstrip : strip (singleLineSweep text) = singleLineSweep text := strip_strip _
      rwa [h] at hstrip
  · rintro ⟨hc, hstrip⟩
    show strip (sweepChars DEFAULT_SWEEP text) = text
    rw [sweepChars_default, List.map_congr_left fun c hm => if_neg (by simp [hc c hm]),
      List.map_id', hstrip]

theorem singleLineSweep_idem (text : PyStr) :
    singleLineSweep (singleLineSweep text) = singleLineSweep text :=
  singleLineSweep_eq_self_iff.mpr ⟨fun _ h => not_swept_of_mem_sweep h, strip_strip _⟩

/-- Swept text can be encoded. -/
theorem utf8_of_not_swept {text : PyStr} (h : ∀ c ∈ text, isSwept c = false) :
    ∃ b, utf8 text = .ok b := by
  refine utf8_isOk_iff.mpr fun c hc => ?_
  by_contra hs
  rw [Bool.not_eq_false] at hs
  exact absurd (isSwept_of_isSurrogate hs) (by simp [h c hc])

/-! ## What the validators accept -/

/-- A Technocore name: `[a-z0-9][a-z0-9_-]{0,47}`. -/
def IsName (s : PyStr) : Prop :=
  ∃ c body, s = c :: body ∧ nameStart c = true ∧ (∀ x ∈ body, nameChar x = true) ∧ body.length ≤ 47

/-- `NAME_RE` matches the names, and the names with a line feed after them. -/
theorem matchStart_NAME_RE {s : PyStr} :
    matchStart NAME_RE s = true ↔ ∃ name, IsName name ∧ (s = name ∨ s = name ++ [cp '\n']) := by
  have hends : matchStart NAME_RE s = true ↔ ∃ e, e ∈ NAME_RE.ends ⟨[], s⟩ := by
    rw [matchStart, Bool.not_eq_true', List.isEmpty_eq_false_iff_exists_mem]
  rw [hends]
  simp only [Regex.mem_ends_iff, NAME_RE, endOfText, Regex.Matches, Regex.matches_one]
  constructor
  · rintro ⟨e, m, hs, -, _, _, rfl, ⟨c, rfl, hc⟩, body, _, rfl, ⟨hbody, -, hlen⟩, rfl, hend⟩
    refine ⟨c :: body, ⟨c, body, rfl, hc, hbody, hlen 47 rfl⟩, ?_⟩
    simp only [List.append_nil, List.singleton_append] at hs
    rw [hs]
    rw [Bool.or_eq_true, beq_iff_eq, beq_iff_eq] at hend
    rcases hend with hend | hend
    · exact Or.inl (by rw [hend, List.append_nil])
    · exact Or.inr (by rw [hend])
  · rintro ⟨_, ⟨c, body, rfl, hc, hbody, hlen⟩, hs⟩
    have key : ∀ tail, s = c :: body ++ tail → (tail == [] || tail == [cp '\n']) = true →
        ∃ e : Cursor CodePoint, ∃ m, s = m ++ e.after ∧ e.before = m.reverse ++ [] ∧
          ∃ m₁ m₂, m = m₁ ++ m₂ ∧ (∃ x, m₁ = [x] ∧ nameStart x = true) ∧
            ∃ m₃ m₄, m₂ = m₃ ++ m₄ ∧ ((∀ x ∈ m₃, nameChar x = true) ∧ 0 ≤ m₃.length ∧
              ∀ h, some 47 = some h → m₃.length ≤ h) ∧ m₄ = [] ∧
                (e.after == [] || e.after == [cp '\n']) = true := by
      intro tail hs htail
      refine ⟨⟨(c :: body).reverse, tail⟩, c :: body, hs, by simp, [c], body, rfl, ⟨c, rfl, hc⟩,
        body, [], by simp, ⟨hbody, Nat.zero_le _, ?_⟩, rfl, htail⟩
      intro _ hh
      exact Option.some.inj hh ▸ hlen
    rcases hs with rfl | rfl
    · exact key [] (by simp) (by decide)
    · exact key [cp '\n'] rfl (by decide)

theorem validateName_eq_ok [PyRuntime] {value kind name : PyStr} :
    validateName value kind = .ok name ↔ matchStart NAME_RE value = true ∧ name = value := by
  unfold validateName
  split
  · rename_i h
    simp [h, eq_comm]
  · rename_i h
    simp [h]

/-- What `validateRoom` accepts. -/
def IsRoom (room : PyStr) : Prop :=
  room ≠ [] ∧ room.length ≤ 128 ∧ singleLineSweep room = room ∧ ∀ c ∈ py "|/?#", c ∉ room

theorem validateRoom_eq_ok {room r : PyStr} : validateRoom room = .ok r ↔ IsRoom room ∧ r = room := by
  have hmarks : (∀ c ∈ py "|/?#", c ∉ room) ↔
      cp '|' ∉ room ∧ ¬ (cp '/' ∈ room ∨ cp '?' ∈ room ∨ cp '#' ∈ room) := by
    simp [py, not_or]
  simp only [IsRoom, hmarks, validateRoom]
  split
  · rename_i h
    simp [h]
  split
  · rename_i h
    exact iff_of_false (fun h => by cases h) fun hr => by omega
  split
  · rename_i h
    exact iff_of_false (fun h => by cases h) fun hr => h hr.1.2.2.1.symm
  split
  · rename_i h
    exact iff_of_false (fun h => by cases h) fun hr => hr.1.2.2.2.1 h
  split
  · rename_i h
    exact iff_of_false (fun h => by cases h) fun hr => hr.1.2.2.2.2 h
  · rename_i h₁ h₂ h₃ h₄ h₅
    constructor
    · intro h
      cases h
      exact ⟨⟨h₁, by omega, (not_not.mp h₃).symm, h₄, h₅⟩, rfl⟩
    · rintro ⟨-, rfl⟩
      rfl

theorem strInt_natCast {n : Nat} (h : n < 10 ^ 19) : strInt n = .ok (decimalDigits n) := by
  have hlen : (decimalDigits n).length ≤ maxStrDigits :=
    Nat.le_trans ((decimalDigits_length_le_iff (by decide)).mpr h) (by decide)
  have hneg : ¬ (n : Int) < 0 := by omega
  rw [strInt, Int.natAbs_natCast, if_pos hlen, if_neg hneg, List.nil_append]

/-- A nonce has 1 to 19 digits. -/
theorem validateNonce_eq_ok {nonce : PyInt} {k : Int} :
    validateNonce nonce = .ok k ↔ ∃ n : Nat, nonce = .int n ∧ k = n ∧ n < 10 ^ 19 := by
  unfold validateNonce
  cases nonce with
  | bool b => simp
  | int i =>
    simp only
    split
    · rename_i hneg
      refine iff_of_false nofun ?_
      rintro ⟨n, hn, -, -⟩
      cases hn
      omega
    · rename_i hpos
      obtain ⟨n, rfl⟩ := Int.eq_ofNat_of_zero_le (Int.not_lt.mp hpos)
      simp only [bind_eq_ok]
      constructor
      · rintro ⟨digits, hd, h⟩
        split at h
        · cases h
        · rename_i hlen
          cases h
          have hdd := strInt_eq_ok hd
          rw [if_neg hpos, List.nil_append, Int.natAbs_natCast] at hdd
          rw [hdd, not_lt, MAX_NONCE_DIGITS, decimalDigits_length_le_iff (by decide)] at hlen
          exact ⟨n, rfl, rfl, hlen⟩
      · rintro ⟨m, hm, rfl, hlt⟩
        obtain rfl : n = m := by
          cases hm
          rfl
        refine ⟨_, strInt_natCast hlt, ?_⟩
        rw [if_neg (not_lt.mpr (show _ ≤ MAX_NONCE_DIGITS from
          (decimalDigits_length_le_iff (by decide)).mpr hlt))]
        rfl

/-! ## What the builders produce -/

/-- The text of a message payload. -/
def messageText (room : PyStr) (nonce : Nat) (swept : PyStr) : PyStr :=
  room ++ cp '|' :: (decimalDigits nonce ++ cp '|' :: swept)

/-- The text of a note payload. -/
def noteText (namespace_ key : PyStr) (nonce : Nat) (swept : PyStr) : PyStr :=
  namespace_ ++ cp '|' :: (key ++ cp '|' :: (decimalDigits nonce ++ cp '|' :: swept))

theorem requireNonEmpty_eq_ok {swept s : PyStr} :
    requireNonEmpty swept = .ok s ↔ swept ≠ [] ∧ s = swept := by
  unfold requireNonEmpty
  split
  · rename_i h
    simp [h]
  · rename_i h
    simp [h, eq_comm]

/-- **Which message payloads there are**: a room, a nonce and a text that were accepted, joined. -/
theorem messagePayload_eq_ok {room text : PyStr} {nonce : PyInt} {policy : SweepPolicy}
    {alreadySwept : Bool} {b : Bytes} :
    messagePayload room nonce text policy alreadySwept = .ok b ↔
      ∃ n : Nat, nonce = .int n ∧ n < 10 ^ 19 ∧ IsRoom room ∧
        (∀ swept, swept = (if alreadySwept then text else singleLineSweep text policy) →
          swept ≠ [] ∧ swept.length ≤ MAX_MESSAGE_CHARS ∧
            utf8 (messageText room n swept) = .ok b) := by
  simp only [messagePayload, bind_eq_ok, validateRoom_eq_ok, validateNonce_eq_ok,
    requireNonEmpty_eq_ok, forall_eq]
  generalize (if alreadySwept then text else singleLineSweep text policy) = swept
  constructor
  · rintro ⟨r, ⟨hroom, rfl⟩, k, ⟨n, rfl, rfl, hn⟩, t, ⟨hne, rfl⟩, h⟩
    split at h
    · cases h
    · rename_i hlen
      obtain ⟨digits, hd, hb⟩ := bind_eq_ok.mp h
      rw [strInt_natCast hn] at hd
      cases hd
      exact ⟨n, rfl, hn, hroom, hne, not_lt.mp hlen, hb⟩
  · rintro ⟨n, rfl, hn, hroom, hne, hlen, hb⟩
    refine ⟨room, ⟨hroom, rfl⟩, n, ⟨n, rfl, rfl, hn⟩, swept, ⟨hne, rfl⟩, ?_⟩
    rw [if_neg (not_lt.mpr hlen)]
    exact bind_eq_ok.mpr ⟨_, strInt_natCast hn, hb⟩

/-- **Which note payloads there are.** -/
theorem notePayload_eq_ok [PyRuntime] {namespace_ key value : PyStr} {nonce : PyInt}
    {policy : SweepPolicy} {alreadySwept : Bool} {b : Bytes} :
    notePayload namespace_ key nonce value policy alreadySwept = .ok b ↔
      ∃ n : Nat, nonce = .int n ∧ n < 10 ^ 19 ∧ matchStart NAME_RE namespace_ = true ∧
        matchStart NAME_RE key = true ∧
        (∀ swept, swept = (if alreadySwept then value else singleLineSweep value policy) →
          swept ≠ [] ∧ utf8 (noteText namespace_ key n swept) = .ok b ∧
            ∃ v, utf8 swept = .ok v ∧ v.length ≤ MAX_NOTE_BYTES) := by
  simp only [notePayload, bind_eq_ok, validateName_eq_ok, validateNonce_eq_ok,
    requireNonEmpty_eq_ok, forall_eq]
  generalize (if alreadySwept then value else singleLineSweep value policy) = swept
  constructor
  · rintro ⟨_, ⟨hns, rfl⟩, _, ⟨hkey, rfl⟩, _, ⟨n, rfl, rfl, hn⟩, _, ⟨hne, rfl⟩, digits, hd, e, he,
      v, hv, h⟩
    rw [strInt_natCast hn] at hd
    cases hd
    split at h
    · cases h
    · rename_i hlen
      cases h
      exact ⟨n, rfl, hn, hns, hkey, hne, he, v, hv, not_lt.mp hlen⟩
  · rintro ⟨n, rfl, hn, hns, hkey, hne, he, v, hv, hlen⟩
    refine ⟨_, ⟨hns, rfl⟩, _, ⟨hkey, rfl⟩, _, ⟨n, rfl, rfl, hn⟩, _, ⟨hne, rfl⟩, _,
      strInt_natCast hn, b, he, v, hv, ?_⟩
    rw [if_neg (not_lt.mpr hlen)]
    rfl

end FlopOffice.Identity
