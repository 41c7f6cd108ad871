/-
# FlopOffice.Identity.Sweep — what the sweep leaves, and what may be signed.

Under every policy the sweep is idempotent and its result has no invisible characters; once it trims,
the result is a fixed point of the default sweep too (`singleLineSweep_fixed`). The default sweep
replaces characters in place and cuts white space off the ends, nothing else.

A message payload is therefore a single line, and so is a note payload as far as its value goes. The
names of a note are checked by a pattern whose `$` also stands before a last line feed: such a name
passes, and the line feed is signed (`signed_payload_single_line`).
-/
import FlopOffice.Identity.Capability
import FlopOffice.Lib.Collapse

namespace FlopOffice.Identity

open FlopOffice.Lib FlopOffice.Python

variable {text : PyStr} {policy : SweepPolicy}

/-! ## One pass -/

theorem not_swept_of_mem_sweepChars {c : CodePoint} (h : c ∈ sweepChars policy text) :
    isSwept c = false := by
  obtain ⟨d, -, hc⟩ := List.mem_flatMap.mp h
  split at hc
  · split at hc
    · rw [List.mem_singleton.mp hc]
      exact isSwept_space
    · exact absurd hc List.not_mem_nil
  · rename_i hd
    rw [List.mem_singleton.mp hc]
    exact Bool.eq_false_iff.mpr hd

/-- A text without invisible characters passes the loop unchanged, whatever the policy. -/
theorem sweepChars_eq_self (h : ∀ c ∈ text, isSwept c = false) : sweepChars policy text = text := by
  have hone : ∀ c ∈ text, (if isSwept c then (if policy.replaceWithSpace then [cp ' '] else [])
      else [c]) = [c] := fun c hc => if_neg (by rw [h c hc]; exact Bool.false_ne_true)
  rw [sweepChars, List.flatMap_congr hone]
  exact List.flatMap_singleton' text

theorem infix_strip (s : PyStr) : strip s <:+: s :=
  (List.rdropWhile_prefix isSpace _).isInfix.trans (List.dropWhile_suffix isSpace).isInfix

theorem isSpace_space : isSpace (cp ' ') = true := by
  decide

/-- The sweep before trimming. -/
def sweepRuns (policy : SweepPolicy) (text : PyStr) : PyStr :=
  if policy.collapseRuns then collapseSpaces (sweepChars policy text) else sweepChars policy text

theorem singleLineSweep_eq (text : PyStr) (policy : SweepPolicy) :
    singleLineSweep text policy =
      if policy.trimEnds then strip (sweepRuns policy text) else sweepRuns policy text := rfl

theorem infix_singleLineSweep (text : PyStr) (policy : SweepPolicy) :
    singleLineSweep text policy <:+: sweepRuns policy text := by
  rw [singleLineSweep_eq]
  split
  · exact infix_strip _
  · exact List.infix_rfl

/-- **Nothing invisible survives**, under any policy. -/
theorem not_swept_of_mem_singleLineSweep {c : CodePoint} (h : c ∈ singleLineSweep text policy) :
    isSwept c = false := by
  have hc : c ∈ sweepRuns policy text := (infix_singleLineSweep text policy).subset h
  unfold sweepRuns at hc
  split at hc
  · rcases mem_of_mem_collapse hc with hc | rfl
    · exact not_swept_of_mem_sweepChars hc
    · exact isSwept_space
  · exact not_swept_of_mem_sweepChars hc

/-- What trims is trimmed. -/
theorem strip_singleLineSweep (h : policy.trimEnds = true) :
    strip (singleLineSweep text policy) = singleLineSweep text policy := by
  rw [singleLineSweep_eq, if_pos h]
  exact strip_strip _

/-- What collapses is collapsed: trimming leaves no space at the ends, and no two in a row. -/
theorem collapsed_singleLineSweep (h : policy.collapseRuns = true) :
    Collapsed (cp ' ') (singleLineSweep text policy) := by
  have hruns : Collapsed (cp ' ') (sweepRuns policy text) := by
    rw [sweepRuns, if_pos h]
    exact collapsed_collapse _ _
  rw [singleLineSweep_eq]
  split
  · have hne : ∀ c, isSpace c = false → c ≠ cp ' ' := by
      rintro c hc rfl
      rw [isSpace_space] at hc
      cases hc
    obtain ⟨hhead, hlast⟩ := strip_ends (sweepRuns policy text)
    exact hruns.of_infix (infix_strip _) (fun c hc => hne c (hhead c hc))
      fun c hc => hne c (hlast c hc)
  · exact hruns

/-- Texts the sweep leaves alone. -/
theorem singleLineSweep_eq_self (hswept : ∀ c ∈ text, isSwept c = false)
    (hruns : policy.collapseRuns = true → Collapsed (cp ' ') text)
    (htrim : policy.trimEnds = true → strip text = text) : singleLineSweep text policy = text := by
  have hself : sweepRuns policy text = text := by
    unfold sweepRuns
    rw [sweepChars_eq_self hswept]
    split
    · rename_i h
      exact collapse_of_collapsed (hruns h)
    · rfl
  rw [singleLineSweep_eq, hself]
  split
  · rename_i h
    exact htrim h
  · rfl

/-! ## Fixed points -/

/-- What `strip` cuts off is white space, on both sides. -/
theorem exists_strip (s : PyStr) :
    ∃ pre post, s = pre ++ (strip s ++ post) ∧ ∀ c ∈ pre ++ post, isSpace c = true := by
  refine ⟨s.takeWhile isSpace, (s.dropWhile isSpace).rtakeWhile isSpace, ?_, fun c hc => ?_⟩
  · rw [strip, List.rdropWhile_append_rtakeWhile, List.takeWhile_append_dropWhile]
  · rcases List.mem_append.mp hc with hc | hc
    · exact List.mem_takeWhile_imp hc
    · exact List.mem_rtakeWhile_imp hc

/-- **The fixed points of the sweep.** Under every policy the sweep is idempotent and leaves no
character of the six categories; if the policy trims, the result is a fixed point of the default
sweep, without white space at either end. The default sweep replaces characters one by one and cuts
white space off both ends. -/
theorem singleLineSweep_fixed (text : PyStr) :
    (∀ policy : SweepPolicy,
      singleLineSweep (singleLineSweep text policy) policy = singleLineSweep text policy ∧
      (∀ c ∈ singleLineSweep text policy, isSwept c = false) ∧
      (policy.trimEnds = true →
        singleLineSweep (singleLineSweep text policy) = singleLineSweep text policy ∧
        (∀ c, (singleLineSweep text policy).head? = some c → isSpace c = false) ∧
        ∀ c, (singleLineSweep text policy).getLast? = some c → isSpace c = false)) ∧
    ∃ pre post, text.map (fun c => if isSwept c then cp ' ' else c) =
        pre ++ (singleLineSweep text ++ post) ∧
      ∀ c ∈ pre ++ post, isSpace c = true := by
  constructor
  · intro policy
    have hswept : ∀ c ∈ singleLineSweep text policy, isSwept c = false :=
      fun c hc => not_swept_of_mem_singleLineSweep hc
    refine ⟨singleLineSweep_eq_self hswept collapsed_singleLineSweep strip_singleLineSweep, hswept,
      fun htrim => ?_⟩
    have hstrip : strip (singleLineSweep text policy) = singleLineSweep text policy :=
      strip_singleLineSweep htrim
    exact ⟨singleLineSweep_eq_self hswept nofun fun _ => hstrip, strip_eq_self_iff.mp hstrip⟩
  · rw [← sweepChars_default]
    exact exists_strip _

/-! ## What is signed -/

/-- The payload decodes to a single line without invisible characters. -/
def IsSingleLine (payload : Bytes) : Prop :=
  ∃ t, utf8Decode payload = some t ∧ ∀ c ∈ t, isSwept c = false

theorem isSingleLine_iff {t : PyStr} {payload : Bytes} (h : utf8 t = .ok payload) :
    IsSingleLine payload ↔ ∀ c ∈ t, isSwept c = false := by
  rw [IsSingleLine, utf8Decode_utf8 h]
  exact ⟨fun ⟨_, ht, hs⟩ => Option.some.inj ht ▸ hs, fun hs => ⟨t, rfl, hs⟩⟩

theorem not_swept_of_ascii {c : CodePoint} (h₁ : 0x20 ≤ c.val) (h₂ : c.val < 0x7f) :
    isSwept c = false := by
  have hranges : ∀ rs : List (Nat × Nat), (∀ r ∈ rs, r.2 < 0x20 ∨ 0x7f ≤ r.1) →
      inRanges rs c = false := by
    intro rs hrs
    unfold inRanges
    rw [List.any_eq_false]
    intro r hr hc
    rw [Bool.and_eq_true, decide_eq_true_eq, decide_eq_true_eq] at hc
    have := hrs r hr
    omega
  have hsurrogate : c.isSurrogate = false := by
    simp only [CodePoint.isSurrogate, Bool.and_eq_false_iff, decide_eq_false_iff_not]
    omega
  unfold isSwept category
  rw [hranges _ (by decide), hranges cfRanges (by decide), hsurrogate, hranges _ (by decide),
    if_neg Bool.false_ne_true, if_neg Bool.false_ne_true, if_neg Bool.false_ne_true,
    if_neg Bool.false_ne_true, if_neg (by omega), if_neg (by omega)]
  rfl

theorem not_swept_of_nameChar {c : CodePoint} (h : nameChar c = true) : isSwept c = false := by
  have hmarks : isSwept (cp '_') = false ∧ isSwept (cp '-') = false := by decide
  simp only [nameChar, nameStart, CodePoint.isDigit, Bool.or_eq_true, Bool.and_eq_true,
    decide_eq_true_eq, beq_iff_eq] at h
  rcases h with ((h | h) | rfl) | rfl
  · exact not_swept_of_ascii (by omega) (by omega)
  · exact not_swept_of_ascii (by omega) (by omega)
  · exact hmarks.1
  · exact hmarks.2

theorem nameChar_of_mem_isName {s : PyStr} (h : IsName s) {c : CodePoint} (hc : c ∈ s) :
    nameChar c = true := by
  obtain ⟨d, body, rfl, hd, hbody, -⟩ := h
  rcases List.mem_cons.mp hc with rfl | hc
  · simp only [nameChar, hd, Bool.true_or]
  · exact hbody c hc

/-- What the pattern accepts is a name, up to a line feed at the end. -/
theorem isName_iff_of_matchStart {s : PyStr} (h : matchStart NAME_RE s = true) :
    IsName s ↔ s.getLast? ≠ some (cp '\n') := by
  have hfeed : nameChar (cp '\n') = false := by decide
  have hno : ∀ {t : PyStr}, IsName t → cp '\n' ∉ t := by
    intro t ht hm
    rw [nameChar_of_mem_isName ht hm] at hfeed
    cases hfeed
  constructor
  · exact fun hs hlast => hno hs (List.mem_of_mem_getLast? hlast)
  · intro hlast
    obtain ⟨name, hname, rfl | rfl⟩ := matchStart_NAME_RE.mp h
    · exact hname
    · exact absurd List.getLast?_concat hlast

/-- **Which signed payloads are single lines of the server's grammar.** Every message payload is. A
note payload is, with both names, exactly if neither name ends in a line feed. -/
theorem signed_payload_single_line [PyRuntime] (signer : CapabilitySigner) (nonce : PyInt) :
    (∀ room text m, signTechnocoreMessage signer room nonce text = .ok m →
      IsSingleLine m.payload) ∧
    ∀ namespace_ key value note, signTechnocoreNote signer namespace_ key nonce value = .ok note →
      (IsSingleLine note.payload ∧ IsName note.namespace_ ∧ IsName note.key ↔
        namespace_.getLast? ≠ some (cp '\n') ∧ key.getLast? ≠ some (cp '\n')) := by
  have hbar : isSwept (cp '|') = false := by decide
  have hdigit : ∀ (n : Nat), ∀ c ∈ decimalDigits n, isSwept c = false := by
    intro n c hc
    have hd := isDigit_of_mem_decimalDigits hc
    exact not_swept_of_nameChar (by simp only [nameChar, nameStart, hd, Bool.or_true, Bool.true_or])
  constructor
  · intro room text m h
    obtain ⟨n, payload, signature, -, -, hroom, -, -, hu, -, rfl⟩ :=
      signTechnocoreMessage_eq_ok.mp h
    refine (isSingleLine_iff hu).mpr fun c hc => ?_
    simp only [messageText, List.mem_append, List.mem_cons] at hc
    rcases hc with hc | rfl | hc | rfl | hc
    · exact (singleLineSweep_eq_self_iff.mp hroom.2.2.1).1 c hc
    · exact hbar
    · exact hdigit n c hc
    · exact hbar
    · exact not_swept_of_mem_sweep hc
  · intro namespace_ key value note h
    obtain ⟨n, payload, signature, -, rfl, hp, -, rfl⟩ := signTechnocoreNote_eq_ok.mp h
    obtain ⟨m, -, -, hns, hkey, hbuilt⟩ := notePayload_eq_ok.mp hp
    obtain ⟨-, hu, -⟩ := hbuilt _ rfl
    dsimp only
    rw [← isName_iff_of_matchStart hns, ← isName_iff_of_matchStart hkey]
    refine ⟨fun h => h.2, fun h => ⟨(isSingleLine_iff hu).mpr fun c hc => ?_, h⟩⟩
    obtain ⟨hn, hk⟩ := h
    simp only [noteText, List.mem_append, List.mem_cons] at hc
    rcases hc with hc | rfl | hc | rfl | hc | rfl | hc
    · exact not_swept_of_nameChar (nameChar_of_mem_isName hn hc)
    · exact hbar
    · exact not_swept_of_nameChar (nameChar_of_mem_isName hk hc)
    · exact hbar
    · exact hdigit m c hc
    · exact hbar
    · exact not_swept_of_mem_sweep hc

/-! ## A line feed that is signed -/

section Samples

attribute [local instance] asciiRuntime

/-- **A note over two lines.** The namespace `notes` with a line feed after it passes the check, and the
line feed is part of what is signed. -/
theorem signed_note_two_lines :
    ∃ note, signTechnocoreNote ⟨lobbySigner.sign, lobbySigner.did, true⟩ (py "notes\n") (py "a")
        (.int 7) (py "hello") = .ok note ∧
      ¬ IsSingleLine note.payload ∧ ¬ IsName note.namespace_ := by
  have htext : utf8 (noteText (py "notes\n") (py "a") 7 (py "hello")) =
      .ok (ascii "notes\n|a|7|hello") := by decide
  have hnote : notePayload (py "notes\n") (py "a") (.int 7) (py "hello") =
      .ok (ascii "notes\n|a|7|hello") := by decide
  have hmatch : matchStart NAME_RE (py "notes\n") = true := by decide
  refine ⟨_, signTechnocoreNote_eq_ok.mpr ⟨7, _, _, rfl, rfl, hnote, rfl, rfl⟩, ?_, ?_⟩
  · rw [isSingleLine_iff htext]
    intro hall
    have hfeed := hall (cp '\n') (by decide)
    revert hfeed
    decide
  · intro hname
    exact (isName_iff_of_matchStart hmatch).mp hname (by decide)

end Samples

end FlopOffice.Identity
