/-
# FlopOffice.Python.Unquote — `urllib.parse.unquote`, which never raises.

Bytes that are no UTF-8 are replaced rather than refused: every maximal run of bytes that starts a
character and does not finish it becomes one U+FFFD. On what `encode_path_segment` writes nothing is
replaced, and `unquote` gives the text back (`unquote_encodePathSegment`).
-/
import FlopOffice.Identity.PathSegment

namespace FlopOffice.Python

open FlopOffice.Identity

/-! ## UTF-8 with replacement -/

/-- `0x80` to `0xbf`. -/
def isContinuation (b : UInt8) : Bool := 0x80 ≤ b.toNat && b.toNat < 0xc0

/-- A second byte that may follow `first`, the first of three or four. -/
def secondByte (first second : UInt8) : Bool :=
  isContinuation second && (first.toNat ≠ 0xe0 || 0xa0 ≤ second.toNat) &&
    (first.toNat ≠ 0xed || second.toNat < 0xa0) && (first.toNat ≠ 0xf0 || 0x90 ≤ second.toNat) &&
      (first.toNat ≠ 0xf4 || second.toNat < 0x90)

/-- How many bytes, beside the first, belong to a character that is begun and not finished. -/
def begun (first : UInt8) : Bytes → Nat
  | second :: third :: _ =>
    if 0xe0 ≤ first.toNat ∧ first.toNat < 0xf5 ∧ secondByte first second then
      if 0xf0 ≤ first.toNat ∧ isContinuation third then 2 else 1
    else 0
  | [second] => if 0xe0 ≤ first.toNat ∧ first.toNat < 0xf5 ∧ secondByte first second then 1 else 0
  | [] => 0

/-- `bytes.decode("utf-8", "replace")`. -/
def utf8DecodeReplace : Bytes → PyStr
  | [] => []
  | b :: rest =>
    match (ByteArray.mk (b :: rest).toArray).utf8DecodeChar? 0 with
    | some c => cp c :: utf8DecodeReplace (rest.drop (c.utf8Size - 1))
    | none => cp '\uFFFD' :: utf8DecodeReplace (rest.drop (begun b rest))
termination_by data => data.length
decreasing_by
  · simp only [List.length_drop, List.length_cons]
    omega
  · simp only [List.length_drop, List.length_cons]
    omega

/-- What is UTF-8 is decoded as it is. -/
theorem utf8DecodeReplace_utf8 {s : PyStr} {data : Bytes} (h : utf8 s = .ok data) :
    utf8DecodeReplace data = s := by
  obtain ⟨chars, rfl, rfl⟩ := utf8_eq_ok_iff.mp h
  clear h
  induction chars with
  | nil => rw [List.flatMap_nil, utf8DecodeReplace, List.map_nil]
  | cons c chars ih =>
    have hlen : (String.utf8EncodeChar c).length = c.utf8Size := String.length_utf8EncodeChar c
    have hpos := c.utf8Size_pos
    cases henc : String.utf8EncodeChar c with
    | nil =>
      rw [henc, List.length_nil] at hlen
      omega
    | cons b more =>
      rw [henc, List.length_cons] at hlen
      -- the bytes of one character, in front of the others
      have hsplit : ByteArray.mk (b :: (more ++ chars.flatMap String.utf8EncodeChar)).toArray =
          (String.utf8EncodeChar c).toByteArray ++ (chars.flatMap String.utf8EncodeChar).toByteArray := by
        rw [henc, ← List.toByteArray_append]
        apply ByteArray.ext
        simp
      have hdrop : (more ++ chars.flatMap String.utf8EncodeChar).drop (c.utf8Size - 1) =
          chars.flatMap String.utf8EncodeChar := by
        rw [show c.utf8Size - 1 = more.length by omega, List.drop_left]
      rw [List.flatMap_cons, henc, List.cons_append, utf8DecodeReplace, hsplit,
        ByteArray.utf8DecodeChar?_utf8EncodeChar_append]
      dsimp only
      rw [hdrop, ih, List.map_cons]

/-! ## `unquote` -/

/-- The parts of `unquote`: the ASCII runs are decoded, what is between them stays. -/
def unquoteRuns (run : PyStr) : PyStr → PyStr
  | [] => utf8DecodeReplace (unquoteToBytes run)
  | c :: rest =>
    if c.val < 0x80 then unquoteRuns (run ++ [c]) rest
    else utf8DecodeReplace (unquoteToBytes run) ++ c :: unquoteRuns [] rest

/-- `urllib.parse.unquote(s)`. -/
def unquote (s : PyStr) : PyStr := if cp '%' ∈ s then unquoteRuns [] s else s

theorem unquoteRuns_ascii {s : PyStr} (h : ∀ c ∈ s, c.val < 0x80) (run : PyStr) :
    unquoteRuns run s = utf8DecodeReplace (unquoteToBytes (run ++ s)) := by
  induction s generalizing run with
  | nil => rw [unquoteRuns, List.append_nil]
  | cons c s ih =>
    rw [unquoteRuns, if_pos (h c List.mem_cons_self),
      ih fun d hd => h d (List.mem_cons_of_mem _ hd), List.append_assoc]
    rfl

/-- **`unquote` reads what `encode_path_segment` writes.** -/
theorem unquote_encodePathSegment {text segment : PyStr} (h : encodePathSegment text = .ok segment) :
    unquote segment = text := by
  have hascii : ∀ c ∈ segment, c.val < 0x80 := fun c hc =>
    ascii_of_unreserved (unreserved_of_mem_encode h hc)
  have hback := decode_encodePathSegment h
  obtain ⟨data, hdata, hsegment⟩ := map_eq_ok.mp h
  unfold unquote
  split
  · rw [unquoteRuns_ascii hascii, List.nil_append, ← hsegment, unquoteToBytes_flatMap,
      utf8DecodeReplace_utf8 hdata]
  · rename_i hno
    rw [decodePathSegment, if_neg hno] at hback
    exact Option.some.inj hback

/-- Digits are no escapes. -/
theorem unquote_of_not_mem {s : PyStr} (h : cp '%' ∉ s) : unquote s = s := if_neg h

end FlopOffice.Python
