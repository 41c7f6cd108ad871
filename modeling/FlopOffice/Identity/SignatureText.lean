/-
# FlopOffice.Identity.SignatureText — which texts stand for a signature.

86 base64 digits carry 516 bits, four more than 64 bytes have, and `urlsafe_b64decode` reads the
digits `+` and `/` beside `-` and `_`. Both slacks pass `decode_signature`: what it accepts is the
texts of 86 digits of either alphabet (`decodeSignature_isOk_iff`), while `encode_signature` writes
those of one alphabet with four zero bits at the end. The texts in between are `IsLoose`.
-/
import FlopOffice.Identity.Verifier

namespace FlopOffice.Identity

open FlopOffice.Python

/-! ## Digits -/

/-- The digits the decoder reads. -/
def base64Digits : PyStr := base64Alphabet ++ py "+/"

/-- Each has a value, and is the digit of that value unless it is one of the two others. -/
theorem base64Value_of_mem {c : CodePoint} (h : c ∈ base64Digits) :
    ∃ v, v < 64 ∧ base64Value c = some v ∧ (base64Digit v = c ↔ c ∈ base64Alphabet) := by
  have hall : ∀ d ∈ base64Digits, ((base64Value d).any fun v => decide (v < 64) &&
      (decide (base64Digit v = d) == decide (d ∈ base64Alphabet))) = true := by decide
  obtain ⟨v, hv, hprop⟩ := (Option.any_eq_true _ _).mp (hall c h)
  rw [Bool.and_eq_true, decide_eq_true_eq, beq_iff_eq, decide_eq_decide] at hprop
  exact ⟨v, hprop.1, hv, hprop.2⟩

theorem mem_base64Digits_iff {c : CodePoint} : c ∈ base64Digits ↔ (base64Value c).isSome = true := by
  constructor
  · intro h
    obtain ⟨v, -, hv, -⟩ := base64Value_of_mem h
    rw [hv]
    rfl
  · intro h
    have htranslated : ∀ d, (if d ∈ base64Alphabet.take 62 ++ py "+/" then
        some ((base64Alphabet.take 62 ++ py "+/").idxOf d) else none).isSome = true →
        d ∈ base64Digits := by
      intro d hd
      split at hd
      · rename_i hm
        rcases List.mem_append.mp hm with hm | hm
        · exact List.mem_append_left _ (List.mem_of_mem_take hm)
        · exact List.mem_append_right _ hm
      · cases hd
    have hdash : cp '-' ∈ base64Digits := by decide
    have hunder : cp '_' ∈ base64Digits := by decide
    by_cases h₁ : c = cp '-'
    · exact h₁ ▸ hdash
    · by_cases h₂ : c = cp '_'
      · exact h₂ ▸ hunder
      · rw [base64Value, if_neg h₁, if_neg h₂] at h
        exact htranslated c h

/-- Among the digits, those of the other alphabet. -/
theorem not_mem_base64Alphabet_iff {c : CodePoint} (h : c ∈ base64Digits) :
    c ∉ base64Alphabet ↔ c = cp '+' ∨ c = cp '/' := by
  have hno : cp '+' ∉ base64Alphabet ∧ cp '/' ∉ base64Alphabet := by decide
  constructor
  · intro hc
    rcases List.mem_append.mp h with h | h
    · exact absurd h hc
    · rcases List.mem_cons.mp h with h | h
      · exact Or.inl h
      · exact Or.inr (List.mem_singleton.mp h)
  · rintro (rfl | rfl)
    · exact hno.1
    · exact hno.2

theorem ne_pad_of_base64Value {c : CodePoint} {v : Nat} (h : base64Value c = some v) :
    c ≠ cp '=' := by
  have hpad : base64Value (cp '=') = none := by decide
  rintro rfl
  rw [hpad] at h
  cases h

/-! ## Skipped characters cost bytes -/

/-- The bits of a group that are not yet in a byte. -/
def heldBits : Nat → Nat
  | 0 => 0
  | 1 => 6
  | 2 => 4
  | _ => 2

theorem map_cons_eq_ok {x : Except Exc Bytes} {b : UInt8} {raw : Bytes}
    (h : x.map (b :: ·) = .ok raw) : ∃ rest, x = .ok rest ∧ raw.length = rest.length + 1 := by
  obtain ⟨rest, hx, rfl⟩ := map_eq_ok.mp h
  exact ⟨rest, hx, rfl⟩

/-- Every byte takes eight bits, and every digit brings six. -/
theorem length_of_a2bBase64 {text : PyStr} {quadPos left pads : Nat} {raw : Bytes}
    (h : a2bBase64 quadPos left pads text = .ok raw) :
    8 * raw.length ≤ 6 * (text.countP fun c => (base64Value c).isSome) + heldBits quadPos := by
  induction text generalizing quadPos left pads raw with
  | nil =>
    rw [a2bBase64] at h
    split at h
    · cases h
      exact Nat.zero_le _
    · cases h
  | cons c text ih =>
    have hskip : (text.countP fun c => (base64Value c).isSome) ≤
        ((c :: text).countP fun c => (base64Value c).isSome) :=
      (List.sublist_cons_self c text).countP_le
    rw [a2bBase64] at h
    split at h
    · split at h
      · split at h
        · cases h
          exact Nat.zero_le _
        · have := ih h
          omega
      · have := ih h
        omega
    · split at h
      · have := ih h
        omega
      · rename_i v hv
        rw [List.countP_cons_of_pos (by rw [hv]; rfl)]
        -- the position in the group decides whether a byte is finished
        split at h
        · have := ih h
          simp only [heldBits] at this ⊢
          omega
        · obtain ⟨rest, hrest, hlen⟩ := map_cons_eq_ok h
          have := ih hrest
          simp only [heldBits] at this ⊢
          omega
        · obtain ⟨rest, hrest, hlen⟩ := map_cons_eq_ok h
          have := ih hrest
          simp only [heldBits] at this ⊢
          omega
        · obtain ⟨rest, hrest, hlen⟩ := map_cons_eq_ok h
          have := ih hrest
          simp only [heldBits] at this ⊢
          omega

/-! ## Groups -/

theorem a2bBase64_value {quadPos left pads v : Nat} {c : CodePoint} (h : base64Value c = some v)
    (rest : PyStr) :
    a2bBase64 quadPos left pads (c :: rest) =
      match quadPos with
      | 0 => a2bBase64 1 v 0 rest
      | 1 => (a2bBase64 2 (v % 16) 0 rest).map (UInt8.ofNat (left * 4 + v / 16) :: ·)
      | 2 => (a2bBase64 3 (v % 4) 0 rest).map (UInt8.ofNat (left * 16 + v / 4) :: ·)
      | _ => (a2bBase64 0 0 0 rest).map (UInt8.ofNat (left * 64 + v) :: ·) := by
  rw [a2bBase64, if_neg (ne_pad_of_base64Value h)]
  generalize base64Value c = digit at h
  subst h
  rfl

theorem base64Digit_of_mod {m n : Nat} (h : m % 64 = n % 64) : base64Digit m = base64Digit n := by
  rw [base64Digit, base64Digit, h]

theorem toNat_ofNat_lt {n : Nat} (h : n < 256) : (UInt8.ofNat n).toNat = n := by
  rw [UInt8.toNat_ofNat']
  exact Nat.mod_eq_of_lt h

/-- The low four bits of the last digit: no byte holds them. -/
def trailingBits (t : PyStr) : Nat := (t.getLast?.bind base64Value).getD 0 % 16

/-- Digits of either alphabet decode, and the bytes are written as the same digits exactly if all of
them are of the urlsafe alphabet and no bit is left over. -/
theorem a2bBase64_digits : ∀ t : PyStr, (∀ c ∈ t, c ∈ base64Digits) → t.length % 4 = 2 →
    ∃ raw, a2bBase64 0 0 0 (t ++ py "==") = .ok raw ∧ 4 * raw.length + 2 = 3 * t.length ∧
      (base64Unpadded raw = t ↔ (∀ c ∈ t, c ∈ base64Alphabet) ∧ trailingBits t = 0)
  | [], _, hlen => absurd hlen (by decide)
  | [_], _, hlen => absurd (show 1 % 4 = 2 from hlen) (by decide)
  | [_, _, _], _, hlen => absurd (show 3 % 4 = 2 from hlen) (by decide)
  | [c, d], hall, _ => by
    obtain ⟨v, hv, hcv, hc⟩ := base64Value_of_mem (hall c List.mem_cons_self)
    obtain ⟨w, hw, hdw, hd⟩ := base64Value_of_mem (hall d (by simp))
    have hpads : ∀ left, a2bBase64 2 left 0 (py "==") = .ok [] := fun _ => rfl
    refine ⟨[UInt8.ofNat (v * 4 + w / 16)], ?_, rfl, ?_⟩
    · show a2bBase64 0 0 0 (c :: d :: py "==") = _
      simp only [a2bBase64_value hcv, a2bBase64_value hdw, hpads]
      rfl
    · have hbits : trailingBits [c, d] = w % 16 := by
        show (base64Value d).getD 0 % 16 = w % 16
        rw [hdw]
        rfl
      have hsecond : base64Digit (w / 16 * 16) = d ↔ d ∈ base64Alphabet ∧ w % 16 = 0 := by
        have hval : ∀ n, n < 64 → base64Value (base64Digit n) = some n := fun n hn => by
          rw [base64Value_digit, Nat.mod_eq_of_lt hn]
        constructor
        · intro heq
          have hself : w / 16 * 16 = w := by
            rw [← heq, hval _ (by omega)] at hdw
            exact Option.some.inj hdw
          rw [hself] at heq
          exact ⟨hd.mp heq, by omega⟩
        · rintro ⟨hm, hzero⟩
          rw [show w / 16 * 16 = w by omega]
          exact hd.mpr hm
      have hbyte : (UInt8.ofNat (v * 4 + w / 16)).toNat = v * 4 + w / 16 :=
        toNat_ofNat_lt (by omega)
      simp only [base64Unpadded, hbyte, List.cons.injEq, and_true, hbits, List.forall_mem_cons,
        List.not_mem_nil, IsEmpty.forall_iff, implies_true]
      rw [base64Digit_of_mod (show (v * 4 + w / 16) * 0x10 / 0x40 % 64 = v % 64 by omega),
        base64Digit_of_mod (show (v * 4 + w / 16) * 0x10 % 64 = w / 16 * 16 % 64 by omega),
        hc, hsecond, and_assoc]
  | c₀ :: c₁ :: c₂ :: c₃ :: rest, hall, hlen => by
    obtain ⟨v₀, h₀, hv₀, hc₀⟩ := base64Value_of_mem (hall c₀ (by simp))
    obtain ⟨v₁, h₁, hv₁, hc₁⟩ := base64Value_of_mem (hall c₁ (by simp))
    obtain ⟨v₂, h₂, hv₂, hc₂⟩ := base64Value_of_mem (hall c₂ (by simp))
    obtain ⟨v₃, h₃, hv₃, hc₃⟩ := base64Value_of_mem (hall c₃ (by simp))
    simp only [List.length_cons] at hlen
    have hne : rest ≠ [] := by
      rintro rfl
      exact absurd hlen (by decide)
    obtain ⟨raw, hraw, hsize, hcanon⟩ := a2bBase64_digits rest (fun c hc => hall c (by simp [hc]))
      (by omega)
    refine ⟨UInt8.ofNat (v₀ * 4 + v₁ / 16) :: UInt8.ofNat (v₁ % 16 * 16 + v₂ / 4) ::
      UInt8.ofNat (v₂ % 4 * 64 + v₃) :: raw, ?_, ?_, ?_⟩
    · simp only [List.cons_append, a2bBase64_value hv₀, a2bBase64_value hv₁, a2bBase64_value hv₂,
        a2bBase64_value hv₃, hraw]
      rfl
    · simp only [List.length_cons]
      omega
    · have hbits : trailingBits (c₀ :: c₁ :: c₂ :: c₃ :: rest) = trailingBits rest := by
        obtain ⟨c, rest', rfl⟩ := List.exists_cons_of_ne_nil hne
        rfl
      simp only [base64Unpadded, toNat_ofNat_lt (show v₀ * 4 + v₁ / 16 < 256 by omega),
        toNat_ofNat_lt (show v₁ % 16 * 16 + v₂ / 4 < 256 by omega),
        toNat_ofNat_lt (show v₂ % 4 * 64 + v₃ < 256 by omega), List.cons.injEq, hbits,
        List.forall_mem_cons]
      -- the four digits of the group are those it was read from
      generalize hn : (v₀ * 4 + v₁ / 16) * 0x10000 + (v₁ % 16 * 16 + v₂ / 4) * 0x100 +
        (v₂ % 4 * 64 + v₃) = n
      have e₀ : base64Digit (n / 0x40000) = base64Digit v₀ := base64Digit_of_mod (by omega)
      have e₁ : base64Digit (n / 0x1000) = base64Digit v₁ := base64Digit_of_mod (by omega)
      have e₂ : base64Digit (n / 0x40) = base64Digit v₂ := base64Digit_of_mod (by omega)
      have e₃ : base64Digit n = base64Digit v₃ := base64Digit_of_mod (by omega)
      rw [e₀, e₁, e₂, e₃, hc₀, hc₁, hc₂, hc₃, hcanon]
      simp only [and_assoc]

/-! ## Signatures -/

theorem decodeSignature_eq_ok {t : PyStr} {raw : Bytes} :
    decodeSignature t = .ok raw ↔ t.length = SIGNATURE_CHARS ∧ cp '=' ∉ t ∧
      urlsafeB64decode (t ++ py "==") = .ok raw ∧ raw.length = SIGNATURE_BYTES := by
  unfold decodeSignature
  split
  · rename_i h
    exact iff_of_false nofun fun hr => h hr.1
  split
  · rename_i h
    exact iff_of_false nofun fun hr => hr.2.1 h
  rename_i h₁ h₂
  rw [not_not] at h₁
  cases urlsafeB64decode (t ++ py "==") with
  | error e => exact iff_of_false nofun fun hr => nomatch hr.2.2.1
  | ok bytes =>
    dsimp only
    split
    · rename_i h
      refine iff_of_false nofun fun ⟨_, _, hb, hlen⟩ => h ?_
      rw [Except.ok.inj hb, hlen]
    · rename_i h
      constructor
      · intro hr
        cases hr
        exact ⟨h₁, h₂, rfl, not_not.mp h⟩
      · rintro ⟨-, -, hb, -⟩
        exact hb

/-- What decodes is 86 digits: with one character skipped a byte is missing. -/
theorem digits_of_decodeSignature {t : PyStr} {raw : Bytes} (h : decodeSignature t = .ok raw) :
    t.length = SIGNATURE_CHARS ∧ ∀ c ∈ t, c ∈ base64Digits := by
  obtain ⟨hlen, -, hdecode, hraw⟩ := decodeSignature_eq_ok.mp h
  refine ⟨hlen, fun c hc => mem_base64Digits_iff.mpr ?_⟩
  unfold urlsafeB64decode at hdecode
  split at hdecode
  · cases hdecode
  have hbits := length_of_a2bBase64 hdecode
  have hpads : ((py "==").countP fun c => (base64Value c).isSome) = 0 := by decide
  rw [List.countP_append, hpads, hraw] at hbits
  have hle : (t.countP fun c => (base64Value c).isSome) ≤ t.length := List.countP_le_length
  simp only [heldBits, SIGNATURE_BYTES] at hbits
  rw [SIGNATURE_CHARS] at hlen
  have hfull : (t.countP fun c => (base64Value c).isSome) = t.length := by omega
  exact List.countP_eq_length.mp hfull c hc

/-- 86 digits decode, and encode back to themselves exactly if they are canonical. -/
theorem decodeSignature_digits {t : PyStr} (hlen : t.length = SIGNATURE_CHARS)
    (hall : ∀ c ∈ t, c ∈ base64Digits) :
    ∃ raw, decodeSignature t = .ok raw ∧
      (encodeSignature raw = .ok t ↔ (∀ c ∈ t, c ∈ base64Alphabet) ∧ trailingBits t = 0) := by
  have hmod : t.length % 4 = 2 := by
    rw [hlen]
    rfl
  obtain ⟨raw, hraw, hsize, hcanon⟩ := a2bBase64_digits t hall hmod
  have hbytes : raw.length = SIGNATURE_BYTES := by
    rw [hlen, SIGNATURE_CHARS] at hsize
    rw [SIGNATURE_BYTES]
    omega
  have hpad : cp '=' ∉ t := by
    have hno : cp '=' ∉ base64Digits := by decide
    exact fun hc => hno (hall _ hc)
  have hascii : (t ++ py "==").any (fun c => 0x80 ≤ c.val) = false := by
    have hchars : ∀ c ∈ base64Digits ++ py "==", ¬ 0x80 ≤ c.val := by decide
    rw [List.any_eq_false]
    intro c hc hge
    refine hchars c ?_ (of_decide_eq_true hge)
    exact List.mem_append.mpr ((List.mem_append.mp hc).imp_left (hall c))
  refine ⟨raw, decodeSignature_eq_ok.mpr ⟨hlen, hpad, ?_, hbytes⟩, ?_⟩
  · rw [urlsafeB64decode, hascii]
    exact hraw
  · rw [encodeSignature_eq_ok, ← hcanon]
    exact ⟨fun h => h.2.symm, fun h => ⟨hbytes, h.symm⟩⟩

/-- **What `decode_signature` accepts**: 86 base64 digits, of either alphabet. -/
theorem decodeSignature_isOk_iff {t : PyStr} :
    (∃ raw, decodeSignature t = .ok raw) ↔
      t.length = SIGNATURE_CHARS ∧ ∀ c ∈ t, c ∈ base64Digits := by
  constructor
  · rintro ⟨raw, h⟩
    exact digits_of_decodeSignature h
  · rintro ⟨hlen, hall⟩
    obtain ⟨raw, h, -⟩ := decodeSignature_digits hlen hall
    exact ⟨raw, h⟩

/-- 86 base64 digits that are no encoding of a signature: a digit of the other alphabet, or a bit
after the last byte. -/
def IsLoose (t : PyStr) : Prop :=
  t.length = SIGNATURE_CHARS ∧ (∀ c ∈ t, c ∈ base64Digits) ∧
    (cp '+' ∈ t ∨ cp '/' ∈ t ∨ trailingBits t ≠ 0)

/-- **Signature texts are canonical except for the loose ones**: a text decodes to some bytes exactly
if it is their encoding, unless it is loose. -/
theorem decodeSignature_canonical_iff (t : PyStr) :
    (∀ raw, decodeSignature t = .ok raw ↔ encodeSignature raw = .ok t) ↔ ¬ IsLoose t := by
  constructor
  · rintro hprop ⟨hlen, hall, hloose⟩
    obtain ⟨raw, hraw, hcanon⟩ := decodeSignature_digits hlen hall
    obtain ⟨halphabet, hzero⟩ := hcanon.mp ((hprop raw).mp hraw)
    have hother : ∀ c, c = cp '+' ∨ c = cp '/' → c ∉ t := fun c hc hm =>
      (not_mem_base64Alphabet_iff (hall c hm)).mpr hc (halphabet c hm)
    rcases hloose with hplus | hslash | hbits
    · exact hother _ (Or.inl rfl) hplus
    · exact hother _ (Or.inr rfl) hslash
    · exact hbits hzero
  · intro hnot raw
    refine ⟨fun h => ?_, decodeSignature_of_encodeSignature⟩
    obtain ⟨hlen, hall⟩ := digits_of_decodeSignature h
    obtain ⟨raw', h', hcanon⟩ := decodeSignature_digits hlen hall
    rw [h] at h'
    cases h'
    refine hcanon.mpr ⟨fun c hc => ?_, ?_⟩
    · by_contra hno
      rcases (not_mem_base64Alphabet_iff (hall c hc)).mp hno with rfl | rfl
      · exact hnot ⟨hlen, hall, Or.inl hc⟩
      · exact hnot ⟨hlen, hall, Or.inr (Or.inl hc)⟩
    · by_contra hbits
      exact hnot ⟨hlen, hall, Or.inr (Or.inr hbits)⟩

/-- **Two texts, one signature.** The last digit of the second holds a bit that no byte has. -/
theorem loose_signature_text :
    decodeSignature (List.replicate 85 (cp 'A') ++ py "B") = .ok (List.replicate 64 0) ∧
    decodeSignature (List.replicate 86 (cp 'A')) = .ok (List.replicate 64 0) ∧
    encodeSignature (List.replicate 64 0) ≠ .ok (List.replicate 85 (cp 'A') ++ py "B") := by
  refine ⟨by decide +kernel, by decide, by decide⟩

end FlopOffice.Identity
