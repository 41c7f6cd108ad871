/-
# FlopOffice.Identity.PathSegment — reading a path segment back.

`decode_path_segment` undoes `encode_path_segment` on every text that can be encoded
(`decode_encodePathSegment`), so the encoder loses nothing (`encodePathSegment_lossless`). What it
writes is unreserved characters and escapes only, so no segment brings a separator of its own; but a
dot is unreserved, and a text of one or two dots is its own encoding (`isDotSegment_encode_iff`).
-/
import FlopOffice.Identity.Canonical
import FlopOffice.Lib.PathSegments

namespace FlopOffice.Identity

open FlopOffice.Lib FlopOffice.Python

/-! ## Decoding -/

/-- The value of a hexadecimal digit, of either case. -/
def hexValue (c : CodePoint) : Option Nat :=
  if 0x30 ≤ c.val ∧ c.val ≤ 0x39 then some (c.val - 0x30)
  else if 0x41 ≤ c.val ∧ c.val ≤ 0x46 then some (c.val - 0x41 + 10)
  else if 0x61 ≤ c.val ∧ c.val ≤ 0x66 then some (c.val - 0x61 + 10)
  else none

/-- The byte of an ASCII character. -/
def asciiByte (c : CodePoint) : UInt8 := UInt8.ofNat c.val

/-- `unquote_to_bytes` of an ASCII text: what is no escape stands for itself. -/
def unquoteToBytes : PyStr → Bytes
  | [] => []
  | [c] => [asciiByte c]
  | [c, d] => [asciiByte c, asciiByte d]
  | c :: high :: low :: rest =>
    if c = cp '%' then
      match hexValue high, hexValue low with
      | some h, some l => UInt8.ofNat (16 * h + l) :: unquoteToBytes rest
      | _, _ => asciiByte c :: unquoteToBytes (high :: low :: rest)
    else asciiByte c :: unquoteToBytes (high :: low :: rest)

/-- The parts of `unquote`: the ASCII runs are decoded, what is between them stays. -/
def unquoteParts (run : PyStr) : PyStr → Option PyStr
  | [] => utf8Decode (unquoteToBytes run)
  | c :: rest =>
    if c.val < 0x80 then unquoteParts (run ++ [c]) rest
    else do
      let part ← utf8Decode (unquoteToBytes run)
      let parts ← unquoteParts [] rest
      pure (part ++ c :: parts)

/-- Inverse of `encode_path_segment`; `none` where the bytes are no UTF-8. -/
def decodePathSegment (segment : PyStr) : Option PyStr :=
  if cp '%' ∈ segment then unquoteParts [] segment else some segment

/-! ## Bytes -/

/-- ASCII is encoded as it stands. -/
theorem utf8_ascii {s : PyStr} (h : ∀ c ∈ s, c.val < 0x80) : utf8 s = .ok (s.map asciiByte) := by
  obtain ⟨b, hb⟩ := utf8_isOk_iff.mpr fun c hc => show c.isSurrogate = false by
    have := h c hc
    simp only [CodePoint.isSurrogate, Bool.and_eq_false_iff, decide_eq_false_iff_not]
    omega
  obtain ⟨l, rfl, rfl⟩ := utf8_eq_ok_iff.mp hb
  rw [hb]
  refine congrArg Except.ok ?_
  clear hb
  induction l with
  | nil => rfl
  | cons c l ih =>
    have hc : c.toNat < 0x80 := h (cp c) List.mem_cons_self
    have hone : String.utf8EncodeChar c = [asciiByte (cp c)] := by
      rw [String.utf8EncodeChar_eq_singleton]
      · rfl
      · unfold Char.utf8Size
        rw [if_pos]
        exact UInt32.le_iff_toNat_le.mpr (by show c.toNat ≤ 127; omega)
    rw [List.flatMap_cons, hone, ih fun d hd => h d (List.mem_cons_of_mem _ hd)]
    rfl

/-! ## What the encoder writes -/

theorem isUnreserved_hexDigitUpper (n : Nat) : isUnreserved (hexDigitUpper n) = true := by
  have hall : ∀ m < 16, isUnreserved (hexDigitUpper m) = true := by decide
  have hmod : hexDigitUpper n = hexDigitUpper (n % 16) := by
    simp only [hexDigitUpper, Nat.mod_mod]
  rw [hmod]
  exact hall _ (Nat.mod_lt _ (by decide))

theorem hexValue_hexDigitUpper (n : Nat) : hexValue (hexDigitUpper n) = some (n % 16) := by
  have hall : ∀ m < 16, hexValue (hexDigitUpper m) = some m := by decide
  have hmod : hexDigitUpper n = hexDigitUpper (n % 16) := by
    simp only [hexDigitUpper, Nat.mod_mod]
  rw [hmod]
  exact hall _ (Nat.mod_lt _ (by decide))

/-- An encoded byte is written with unreserved characters and the percent sign. -/
theorem unreserved_of_mem_quoteByte {b : UInt8} {c : CodePoint} (h : c ∈ quoteByte b) :
    isUnreserved c = true ∨ c = cp '%' := by
  unfold quoteByte at h
  dsimp only at h
  split at h
  · rename_i hb
    rw [List.mem_singleton.mp h]
    exact Or.inl hb
  · rcases List.mem_cons.mp h with rfl | h
    · exact Or.inr rfl
    · rcases List.mem_cons.mp h with rfl | h
      · exact Or.inl (isUnreserved_hexDigitUpper _)
      · rw [List.mem_singleton.mp h]
        exact Or.inl (isUnreserved_hexDigitUpper _)

theorem unreserved_of_mem_encode {text segment : PyStr} (h : encodePathSegment text = .ok segment)
    {c : CodePoint} (hc : c ∈ segment) : isUnreserved c = true ∨ c = cp '%' := by
  obtain ⟨data, -, rfl⟩ := map_eq_ok.mp h
  obtain ⟨b, -, hb⟩ := List.mem_flatMap.mp hc
  exact unreserved_of_mem_quoteByte hb

theorem ascii_of_unreserved {c : CodePoint} (h : isUnreserved c = true ∨ c = cp '%') :
    c.val < 0x80 := by
  have hmarks : ∀ d ∈ cp '%' :: py "_.-~", d.val < 0x80 := by decide
  rcases h with h | rfl
  · rcases Bool.or_eq_true_iff.mp h with h | h
    · simp only [CodePoint.isAsciiAlnum, Bool.or_eq_true, Bool.and_eq_true, decide_eq_true_eq] at h
      omega
    · exact hmarks c (List.mem_cons_of_mem _ (of_decide_eq_true h))
  · exact hmarks _ List.mem_cons_self

/-- No segment holds a separator. -/
theorem slash_not_mem_encode {text segment : PyStr} (h : encodePathSegment text = .ok segment) :
    cp '/' ∉ segment := by
  intro hc
  have hno : ¬ (isUnreserved (cp '/') = true ∨ cp '/' = cp '%') := by decide
  exact hno (unreserved_of_mem_encode h hc)

/-! ## There and back -/

theorem unquoteToBytes_cons_ne {c : CodePoint} (h : c ≠ cp '%') (rest : PyStr) :
    unquoteToBytes (c :: rest) = asciiByte c :: unquoteToBytes rest := by
  match rest with
  | [] => rfl
  | [_] => rfl
  | _ :: _ :: _ => rw [unquoteToBytes, if_neg h]

theorem unquoteToBytes_of_not_mem {s : PyStr} (h : cp '%' ∉ s) :
    unquoteToBytes s = s.map asciiByte := by
  induction s with
  | nil => rfl
  | cons c s ih =>
    rw [unquoteToBytes_cons_ne (fun hc => h (hc ▸ List.mem_cons_self)),
      ih fun hc => h (List.mem_cons_of_mem _ hc)]
    rfl

/-- An encoded byte reads back, whatever follows. -/
theorem unquoteToBytes_quoteByte (b : UInt8) (rest : PyStr) :
    unquoteToBytes (quoteByte b ++ rest) = b :: unquoteToBytes rest := by
  unfold quoteByte
  dsimp only
  split
  · rename_i hb
    rw [List.singleton_append, unquoteToBytes_cons_ne]
    · refine congrArg (· :: _) ?_
      exact UInt8.ofNat_toNat
    · intro hc
      rw [hc] at hb
      revert hb
      decide
  · show unquoteToBytes (cp '%' :: hexDigitUpper _ :: hexDigitUpper _ :: rest) = _
    rw [unquoteToBytes, if_pos rfl, hexValue_hexDigitUpper, hexValue_hexDigitUpper]
    refine congrArg (· :: _) ?_
    have hlt := b.toNat_lt
    rw [show 16 * (b.toNat / 16 % 16) + b.toNat % 16 = b.toNat by omega]
    exact UInt8.ofNat_toNat

theorem unquoteToBytes_flatMap (data : Bytes) :
    unquoteToBytes (data.flatMap quoteByte) = data := by
  induction data with
  | nil => rfl
  | cons b data ih => rw [List.flatMap_cons, unquoteToBytes_quoteByte, ih]

/-- An ASCII text is one run. -/
theorem unquoteParts_ascii {s : PyStr} (h : ∀ c ∈ s, c.val < 0x80) (run : PyStr) :
    unquoteParts run s = utf8Decode (unquoteToBytes (run ++ s)) := by
  induction s generalizing run with
  | nil => rw [unquoteParts, List.append_nil]
  | cons c s ih =>
    rw [unquoteParts, if_pos (h c List.mem_cons_self),
      ih fun d hd => h d (List.mem_cons_of_mem _ hd), List.append_assoc]
    rfl

/-- **Decoding undoes encoding**, for path segments. -/
theorem decode_encodePathSegment {text segment : PyStr} (h : encodePathSegment text = .ok segment) :
    decodePathSegment segment = some text := by
  have hascii : ∀ c ∈ segment, c.val < 0x80 := fun c hc =>
    ascii_of_unreserved (unreserved_of_mem_encode h hc)
  obtain ⟨data, hdata, rfl⟩ := map_eq_ok.mp h
  unfold decodePathSegment
  split
  · rw [unquoteParts_ascii hascii, List.nil_append, unquoteToBytes_flatMap, utf8Decode_utf8 hdata]
  · -- without an escape the segment has the bytes of the text
    rename_i hno
    have hbytes := utf8_ascii hascii
    rw [← unquoteToBytes_of_not_mem hno, unquoteToBytes_flatMap] at hbytes
    exact congrArg some (utf8_injective hbytes hdata)

/-- What a segment is written with: unreserved characters, and escapes of two uppercase
hexadecimal digits. -/
def IsSegmentUnit (unit : PyStr) : Prop :=
  (∃ c, isUnreserved c = true ∧ unit = [c]) ∨
    ∃ high low, high ∈ py "0123456789ABCDEF" ∧ low ∈ py "0123456789ABCDEF" ∧
      unit = [cp '%', high, low]

/-- A segment is a sequence of such units. -/
def IsSegment (segment : PyStr) : Prop :=
  ∃ units : List PyStr, segment = units.flatten ∧ ∀ unit ∈ units, IsSegmentUnit unit

theorem hexDigitUpper_mem (n : Nat) : hexDigitUpper n ∈ py "0123456789ABCDEF" := by
  have hall : ∀ m < 16, hexDigitUpper m ∈ py "0123456789ABCDEF" := by decide
  have hmod : hexDigitUpper n = hexDigitUpper (n % 16) := by
    simp only [hexDigitUpper, Nat.mod_mod]
  rw [hmod]
  exact hall _ (Nat.mod_lt _ (by decide))

theorem isSegmentUnit_quoteByte (b : UInt8) : IsSegmentUnit (quoteByte b) := by
  unfold quoteByte
  dsimp only
  split
  · rename_i hb
    exact Or.inl ⟨_, hb, rfl⟩
  · exact Or.inr ⟨_, _, hexDigitUpper_mem _, hexDigitUpper_mem _, rfl⟩

theorem isSegment_encode {text segment : PyStr} (h : encodePathSegment text = .ok segment) :
    IsSegment segment := by
  obtain ⟨data, -, rfl⟩ := map_eq_ok.mp h
  refine ⟨data.map quoteByte, List.flatMap_def, fun unit hunit => ?_⟩
  obtain ⟨b, -, rfl⟩ := List.mem_map.mp hunit
  exact isSegmentUnit_quoteByte b

/-- No character with a meaning in a URL stands in a segment. -/
theorem not_mem_of_isSegment {segment : PyStr} (h : IsSegment segment) :
    ∀ c ∈ py "/?#", c ∉ segment := by
  have hmarks : ∀ c ∈ py "/?#", isUnreserved c = false ∧ c ≠ cp '%' ∧
      c ∉ py "0123456789ABCDEF" := by decide
  obtain ⟨units, rfl, hunits⟩ := h
  intro c hc hmem
  obtain ⟨hun, hpercent, hdigit⟩ := hmarks c hc
  obtain ⟨unit, hunit, hcu⟩ := List.mem_flatten.mp hmem
  rcases hunits unit hunit with ⟨d, hd, rfl⟩ | ⟨high, low, hh, hl, rfl⟩
  · rw [List.mem_singleton.mp hcu, hd] at hun
    cases hun
  · rcases List.mem_cons.mp hcu with h | h
    · exact hpercent h
    · rcases List.mem_cons.mp h with h | h
      · exact hdigit (h ▸ hh)
      · exact hdigit (List.mem_singleton.mp h ▸ hl)

theorem encodePathSegment_isOk_iff {text : PyStr} :
    (∃ segment, encodePathSegment text = .ok segment) ↔ ∀ c ∈ text, c.isSurrogate = false := by
  rw [← utf8_isOk_iff]
  constructor
  · rintro ⟨_, h⟩
    obtain ⟨data, hdata, -⟩ := map_eq_ok.mp h
    exact ⟨data, hdata⟩
  · rintro ⟨data, hdata⟩
    exact ⟨_, map_eq_ok.mpr ⟨data, hdata, rfl⟩⟩

/-- **The encoding of path segments loses nothing.** A text of scalar values is written as a segment,
without URL separators, that reads back as the text, and no other text is written so; a text with a
lone surrogate raises. -/
theorem encodePathSegment_lossless (text : PyStr) :
    ((∀ c ∈ text, c.isSurrogate = false) →
      ∃ segment, encodePathSegment text = .ok segment ∧ IsSegment segment ∧
        (∀ c ∈ py "/?#", c ∉ segment) ∧ decodePathSegment segment = some text ∧
        ∀ other, encodePathSegment other = .ok segment → other = text) ∧
    ((∃ c ∈ text, c.isSurrogate = true) →
      ∃ e, encodePathSegment text = .error e ∧ e.cls = .unicodeEncodeError) := by
  constructor
  · intro hscalar
    obtain ⟨segment, h⟩ := encodePathSegment_isOk_iff.mpr hscalar
    refine ⟨segment, h, isSegment_encode h, not_mem_of_isSegment (isSegment_encode h),
      decode_encodePathSegment h, fun other hother => ?_⟩
    have hback := decode_encodePathSegment hother
    rw [decode_encodePathSegment h] at hback
    exact (Option.some.inj hback).symm
  · rintro ⟨c, hc, hs⟩
    have hno : ¬ ∃ segment, encodePathSegment text = .ok segment := fun h => by
      have hscalar := encodePathSegment_isOk_iff.mp h c hc
      rw [hs] at hscalar
      cases hscalar
    cases h : utf8 text with
    | ok data => exact absurd ⟨_, map_eq_ok.mpr ⟨data, h, rfl⟩⟩ hno
    | error e => exact ⟨e, by rw [encodePathSegment, h]; rfl, utf8_error h⟩

/-- A text is encoded as a dot segment exactly if it is one. -/
theorem isDotSegment_encode_iff {text segment : PyStr} (h : encodePathSegment text = .ok segment) :
    IsDotSegment (cp '.') segment ↔ IsDotSegment (cp '.') text := by
  have hback := decode_encodePathSegment h
  constructor
  · rintro (rfl | rfl)
    · exact Or.inl (Option.some.inj hback).symm
    · exact Or.inr (Option.some.inj hback).symm
  · rintro (rfl | rfl)
    · exact Or.inl (Except.ok.inj h).symm
    · exact Or.inr (Except.ok.inj h).symm

end FlopOffice.Identity
