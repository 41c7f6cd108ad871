/-
# FlopOffice.Integration.Exchange — a client and the stand-in.

A write that `build_signed_message` made reaches the server as the path it was encoded into, with dot
segments removed on the way. It is stored exactly if the client is told so: what `send_signed_message`
returns on it is the number of the record, and whatever else it meets it raises (`exchange`). That needs
nothing of the write but to be built; a room or a text of dots is never delivered. Over any run of
requests a confirmed write is stored once (`exactly_once`).
-/
import FlopOffice.Integration.ServerRuns
import FlopOffice.Python.Decimal
import FlopOffice.Technocore.Client
import FlopOffice.Technocore.WritePath

namespace FlopOffice.Integration

open FlopOffice.Identity FlopOffice.Lib FlopOffice.Python FlopOffice.Technocore

/-! ## Paths and their parts -/

/-- The first and the last character of joined segments are those of the first and the last segment. -/
theorem ends_intercalate {segs : List PyStr} (hne : segs ≠ []) (hsegs : ∀ seg ∈ segs, seg ≠ [] ∧ cp '/' ∉ seg) :
    ∃ c d, ([cp '/'].intercalate segs).head? = some c ∧ ([cp '/'].intercalate segs).getLast? = some d ∧
      c ≠ cp '/' ∧ d ≠ cp '/' := by
  induction segs with
  | nil => exact absurd rfl hne
  | cons seg segs ih =>
    obtain ⟨hseg, hfree⟩ := hsegs seg List.mem_cons_self
    obtain ⟨c, hc⟩ : ∃ c, seg.head? = some c := ⟨_, List.head?_eq_some_head hseg⟩
    obtain ⟨d, hd⟩ : ∃ d, seg.getLast? = some d := ⟨_, List.getLast?_eq_getLast_of_ne_nil hseg⟩
    have hcne : c ≠ cp '/' := fun h => hfree (h ▸ List.mem_of_head? hc)
    have hdne : d ≠ cp '/' := fun h => hfree (h ▸ List.mem_of_getLast? hd)
    cases segs with
    | nil => exact ⟨c, d, by simpa using hc, by simpa using hd, hcne, hdne⟩
    | cons next rest =>
      obtain ⟨-, d', -, hd', -, hd'ne⟩ := ih (List.cons_ne_nil _ _) fun s hs =>
        hsegs s (List.mem_cons_of_mem _ hs)
      refine ⟨c, d', ?_, ?_, hcne, hd'ne⟩
      · rw [List.intercalate_cons_cons, List.append_assoc, List.head?_append, hc, Option.some_or]
      · rw [List.intercalate_cons_cons, List.getLast?_append, hd', Option.some_or]

/-- A path of segments that are not empty, perhaps with a separator at its end. -/
def pathOf (segs : List PyStr) (slash : Bool) : PyStr :=
  cp '/' :: ([cp '/'].intercalate segs ++ if slash then [cp '/'] else [])

theorem stripSlashes_pathOf {segs : List PyStr} (hne : segs ≠ [])
    (hsegs : ∀ seg ∈ segs, seg ≠ [] ∧ cp '/' ∉ seg) (slash : Bool) :
    stripSlashes (pathOf segs slash) = [cp '/'].intercalate segs := by
  obtain ⟨c, d, hc, hd, hcne, hdne⟩ := ends_intercalate hne hsegs
  unfold stripSlashes pathOf
  generalize [cp '/'].intercalate segs = x at hc hd
  obtain ⟨rest, rfl⟩ : ∃ rest, x = c :: rest := List.head?_eq_some_iff.mp hc
  have hself : (c :: rest).rdropWhile (fun c => c == cp '/') = c :: rest := by
    rw [List.rdropWhile_eq_self_iff]
    intro hcons
    rw [List.getLast?_eq_getLast_of_ne_nil hcons, Option.some_inj] at hd
    rw [hd]
    simpa using hdne
  rw [List.dropWhile_cons_of_pos (by simp), List.cons_append,
    List.dropWhile_cons_of_neg (by simpa using hcne)]
  cases slash with
  | false =>
    rw [if_neg Bool.false_ne_true, List.append_nil]
    exact hself
  | true =>
    rw [if_pos rfl, ← List.cons_append, List.rdropWhile_concat_pos _ _ _ (by simp)]
    exact hself

/-- **The parts of a path** are its segments, unquoted. -/
theorem parts_pathOf {segs : List PyStr} (hne : segs ≠ []) (hsegs : ∀ seg ∈ segs, seg ≠ [] ∧ cp '/' ∉ seg)
    (slash : Bool) (query : List (PyStr × PyStr)) :
    Request.parts ⟨pathOf segs slash, query⟩ = segs.map unquote := by
  unfold Request.parts
  rw [stripSlashes_pathOf hne hsegs, List.splitOn_intercalate (cp '/') (fun s hs => (hsegs s hs).2) hne]

theorem intercalate_cons_nil {segs : List PyStr} (hne : segs ≠ []) :
    [cp '/'].intercalate ([] :: segs) = pathOf segs false := by
  obtain ⟨seg, rest, rfl⟩ := List.exists_cons_of_ne_nil hne
  rw [List.intercalate_cons_cons, pathOf, if_neg Bool.false_ne_true, List.append_nil]
  rfl

theorem intercalate_append_nil {segs : List PyStr} (hne : segs ≠ []) :
    [cp '/'].intercalate ([] :: (segs ++ [[]])) = pathOf segs true := by
  have hconcat : ∀ ss : List PyStr, ss ≠ [] →
      [cp '/'].intercalate (ss ++ [[]]) = [cp '/'].intercalate ss ++ [cp '/'] := by
    intro ss
    induction ss with
    | nil => exact fun h => absurd rfl h
    | cons s ss ih =>
      intro _
      cases ss with
      | nil => simp
      | cons next rest =>
        rw [List.cons_append, List.cons_append, List.intercalate_cons_cons, List.intercalate_cons_cons,
          ← List.cons_append, ih (List.cons_ne_nil _ _), List.append_assoc, List.append_assoc,
          List.append_assoc]
  rw [intercalate_cons_nil (by simp), pathOf, pathOf, hconcat segs hne, if_pos rfl,
    if_neg Bool.false_ne_true, List.append_nil]

/-! ## Which handler -/

section Handlers

variable [PyRuntime] [PyBuiltins] [Ed25519]

omit [PyRuntime] [PyBuiltins] [Ed25519] in
/-- A path with other parts is none of the two that are looked up as they stand. -/
theorem path_ne_fixed {r : Request} (hagent : r.parts ≠ [py ".well-known", py "agent.json"])
    (hrooms : r.parts ≠ [py "rooms"]) :
    r.path ≠ py "/.well-known/agent.json" ∧ r.path ≠ py "/rooms" := by
  unfold Request.parts at hagent hrooms
  constructor
  · intro h
    rw [h] at hagent
    exact hagent (by decide)
  · intro h
    rw [h] at hrooms
    exact hrooms (by decide)

/-- A path of three to six parts is not found. -/
theorem doGet_notFound {r : Request} (h : 3 ≤ r.parts.length ∧ r.parts.length ≤ 6) (now : ℚ) (ts : PyStr)
    (s : FakeTechnocoreState) :
    doGet r now ts s = (sendJson 404 (errorJson (py "not found")), s) := by
  obtain ⟨hagent, hrooms⟩ := path_ne_fixed (r := r) (fun hp => by simp [hp] at h) fun hp => by simp [hp] at h
  unfold doGet
  rw [if_neg hagent, if_neg hrooms]
  dsimp only
  split
  · rename_i hparts
    rw [hparts] at h
    simp only [List.length_cons] at h
    omega
  · rename_i hparts
    rw [hparts] at h
    simp at h
  · rfl

/-- Nor is a path of one part that is not `rooms`. -/
theorem doGet_notFound_one {r : Request} {part : PyStr} (h : r.parts = [part]) (hpart : part ≠ py "rooms")
    (now : ℚ) (ts : PyStr) (s : FakeTechnocoreState) :
    doGet r now ts s = (sendJson 404 (errorJson (py "not found")), s) := by
  obtain ⟨hagent, hrooms⟩ := path_ne_fixed (r := r) (by simp [h]) (by simpa [h] using hpart)
  unfold doGet
  rw [if_neg hagent, if_neg hrooms, h]

theorem doGet_write {r : Request} {room did sig nonceText text : PyStr} {more : List PyStr}
    (h : r.parts = py "r" :: room :: py "say-signed" :: did :: sig :: nonceText :: text :: more) (now : ℚ)
    (ts : PyStr) (s : FakeTechnocoreState) :
    doGet r now ts s = saySigned room did sig nonceText ([cp '/'].intercalate (text :: more)) now ts s := by
  obtain ⟨hagent, hrooms⟩ := path_ne_fixed (r := r) (by simp [h]) (by simp [h])
  unfold doGet
  rw [if_neg hagent, if_neg hrooms, h]
  exact if_pos ⟨rfl, rfl⟩

theorem doGet_room {r : Request} {room : PyStr} (h : r.parts = [py "r", room]) (now : ℚ) (ts : PyStr)
    (s : FakeTechnocoreState) :
    doGet r now ts s = (sendResult 200 ((selectMessages (r.param (py "since")) (r.param (py "limit"))
      (s.room room)).map (roomJson room)), s) := by
  have hr : py "r" ≠ py ".well-known" := by decide
  obtain ⟨hagent, hrooms⟩ := path_ne_fixed (r := r) (by simp [h, hr]) (by simp [h])
  unfold doGet
  rw [if_neg hagent, if_neg hrooms, h]
  exact if_pos rfl

end Handlers

/-! ## Dot segments -/

theorem dropDotSegments_keep {seg next : PyStr} {rest out : List PyStr} (h : ¬ IsDotSegment (cp '.') seg) :
    dropDotSegments (cp '.') out (seg :: next :: rest) =
      dropDotSegments (cp '.') (seg :: out) (next :: rest) := by
  obtain ⟨h₁, h₂⟩ := not_or.mp h
  rw [dropDotSegments, if_neg h₁, if_neg h₂]

/-- **A dotted write arrives as something else**: three to six of its segments, perhaps with a separator
behind them. -/
theorem dropDotSegments_dotted {room did sig digits text : PyStr} (hdid : ¬ IsDotSegment (cp '.') did)
    (hsig : ¬ IsDotSegment (cp '.') sig) (hdigits : ¬ IsDotSegment (cp '.') digits)
    (h : IsDotSegment (cp '.') room ∨ IsDotSegment (cp '.') text) :
    ∃ segs slash, [cp '/'].intercalate ([] :: dropDotSegments (cp '.') []
        [py "r", room, py "say-signed", did, sig, digits, text]) = pathOf segs slash ∧
      3 ≤ segs.length ∧ segs.length ≤ 6 ∧
      ∀ seg ∈ segs, seg ∈ [py "r", room, py "say-signed", did, sig, digits, text] := by
  have hr : ¬ IsDotSegment (cp '.') (py "r") := by decide
  have hsay : ¬ IsDotSegment (cp '.') (py "say-signed") := by decide
  -- what the segments from `say-signed` on make of the output they find
  have htail : ∀ out : List PyStr, out.length ≤ 2 → (∀ seg ∈ out, seg = py "r" ∨ seg = room) →
      (out.length ≤ 1 ∨ IsDotSegment (cp '.') text) →
      ∃ segs slash, [cp '/'].intercalate ([] :: dropDotSegments (cp '.') out
          [py "say-signed", did, sig, digits, text]) = pathOf segs slash ∧
        3 ≤ segs.length ∧ segs.length ≤ 6 ∧
        ∀ seg ∈ segs, seg ∈ [py "r", room, py "say-signed", did, sig, digits, text] := by
    intro out hlen hout hshort
    rw [dropDotSegments_keep hsay, dropDotSegments_keep hdid, dropDotSegments_keep hsig,
      dropDotSegments_keep hdigits]
    have hmem : ∀ more : List PyStr, (∀ seg ∈ more, seg ∈ [py "say-signed", did, sig, digits, text]) →
        ∀ seg ∈ out.reverse ++ more, seg ∈ [py "r", room, py "say-signed", did, sig, digits, text] := by
      intro more hmore seg hseg
      rcases List.mem_append.mp hseg with hseg | hseg
      · rcases hout seg (List.mem_reverse.mp hseg) with rfl | rfl
        · simp
        · simp
      · exact List.mem_cons_of_mem _ (List.mem_cons_of_mem _ (hmore seg hseg))
    by_cases hdot : text = [cp '.']
    · refine ⟨out.reverse ++ [py "say-signed", did, sig, digits], true, ?_, ?_, ?_, hmem _ ?_⟩
      · rw [← intercalate_append_nil (by simp), dropDotSegments, if_pos hdot]
        simp
      · simp
      · simp only [List.length_append, List.length_reverse, List.length_cons, List.length_nil]
        omega
      · intro seg hseg
        simp only [List.mem_cons, List.not_mem_nil, or_false] at hseg ⊢
        tauto
    by_cases hdots : text = [cp '.', cp '.']
    · refine ⟨out.reverse ++ [py "say-signed", did, sig], true, ?_, ?_, ?_, hmem _ ?_⟩
      · rw [← intercalate_append_nil (by simp), dropDotSegments, if_neg hdot, if_pos hdots]
        simp
      · simp
      · simp only [List.length_append, List.length_reverse, List.length_cons, List.length_nil]
        omega
      · intro seg hseg
        simp only [List.mem_cons, List.not_mem_nil, or_false] at hseg ⊢
        tauto
    · have hone : out.length ≤ 1 := hshort.resolve_right (not_or.mpr ⟨hdot, hdots⟩)
      refine ⟨out.reverse ++ [py "say-signed", did, sig, digits, text], false, ?_, ?_, ?_, hmem _ ?_⟩
      · rw [← intercalate_cons_nil (by simp), dropDotSegments, if_neg hdot, if_neg hdots]
        simp
      · simp
      · simp only [List.length_append, List.length_reverse, List.length_cons, List.length_nil]
        omega
      · exact fun seg hseg => hseg
  rw [dropDotSegments_keep hr]
  by_cases hroom : room = [cp '.']
  · rw [dropDotSegments, if_pos hroom]
    exact htail [py "r"] (by simp) (by simp) (Or.inl (by simp))
  by_cases hroom' : room = [cp '.', cp '.']
  · rw [dropDotSegments, if_neg hroom, if_pos hroom']
    exact htail [] (by simp) (by simp) (Or.inl (by simp))
  · rw [dropDotSegments, if_neg hroom, if_neg hroom']
    refine htail [room, py "r"] (by simp) (by simp) (Or.inr ?_)
    exact h.resolve_left (not_or.mpr ⟨hroom, hroom'⟩)

/-! ## The wire -/

/-- A request as it leaves the client. The package that sends it is assumed to remove dot segments from the
path as RFC 3986 does, up to a trailing separator, which the server strips. -/
def wireRequest (path : PyStr) (query : List (PyStr × PyStr)) : Request :=
  ⟨removeDotSegments (cp '/') (cp '.') path, query⟩

/-- Only the empty text is encoded as the empty segment. -/
theorem encodePathSegment_ne_nil {text segment : PyStr} (h : encodePathSegment text = .ok segment)
    (hne : text ≠ []) : segment ≠ [] := by
  rintro rfl
  have hback := decode_encodePathSegment h
  exact hne (Option.some.inj hback).symm

/-- **What a write arrives as.** -/
theorem wire_write {w : SignedWrite} (h : Encodable w) (hother : Undotted w) (hroom : w.room ≠ [])
    (hdid : w.did ≠ []) (hsig : w.signature ≠ []) (htext : w.sweptText ≠ []) :
    ∃ path digits, w.path = .ok path ∧ w.nonce.str = .ok digits ∧
      (¬ IsDotSegment (cp '.') w.room ∧ ¬ IsDotSegment (cp '.') w.sweptText →
        (wireRequest path []).parts =
          [py "r", w.room, py "say-signed", w.did, w.signature, digits, w.sweptText]) ∧
      (IsDotSegment (cp '.') w.room ∨ IsDotSegment (cp '.') w.sweptText →
        3 ≤ (wireRequest path []).parts.length ∧ (wireRequest path []).parts.length ≤ 6) := by
  obtain ⟨path, room, did, sig, digits, text, hpath, hdigits, eroom, edid, esig, edecode, etext, hdot,
    hslash, rfl⟩ := path_segments h
  obtain ⟨n, hn, hlt⟩ := h.nonce
  have hdecimal : digits = decimalDigits n := by
    rw [hn] at hdigits
    exact Except.ok.inj (hdigits.symm.trans (strInt_natCast hlt))
  have hdigitsne : digits ≠ [] := hdecimal ▸ decimalDigits_ne_nil n
  have hdigitsq : unquote digits = digits := by
    rw [hdecimal]
    refine unquote_of_not_mem fun hmem => ?_
    have hpercent : (cp '%').isDigit = false := by decide
    rw [isDigit_of_mem_decimalDigits hmem] at hpercent
    cases hpercent
  have hsegs : ∀ seg ∈ [py "r", room, py "say-signed", did, sig, digits, text], seg ≠ [] ∧ cp '/' ∉ seg := by
    intro seg hseg
    refine ⟨?_, hslash seg hseg⟩
    simp only [List.mem_cons, List.not_mem_nil, or_false] at hseg
    rcases hseg with rfl | rfl | rfl | rfl | rfl | rfl | rfl
    · decide
    · exact encodePathSegment_ne_nil eroom hroom
    · decide
    · exact encodePathSegment_ne_nil edid hdid
    · exact encodePathSegment_ne_nil esig hsig
    · exact hdigitsne
    · exact encodePathSegment_ne_nil etext htext
  have hfree : ∀ seg ∈ [] :: [py "r", room, py "say-signed", did, sig, digits, text], cp '/' ∉ seg := by
    intro seg hs
    rcases List.mem_cons.mp hs with rfl | hs
    · exact List.not_mem_nil
    · exact hslash seg hs
  have hwire : wireRequest ([cp '/'].intercalate ([] :: [py "r", room, py "say-signed", did, sig, digits, text]))
      [] = ⟨[cp '/'].intercalate ([] :: dropDotSegments (cp '.') []
        [py "r", room, py "say-signed", did, sig, digits, text]), []⟩ := by
    unfold wireRequest removeDotSegments
    rw [List.splitOn_intercalate (cp '/') hfree (List.cons_ne_nil _ _), List.tail_cons]
  refine ⟨_, digits, hpath, hdigits, ?_⟩
  rw [hwire]
  constructor
  · rintro ⟨hroomdot, htextdot⟩
    have hnone : ∀ seg ∈ [py "r", room, py "say-signed", did, sig, digits, text],
        ¬ IsDotSegment (cp '.') seg := by
      have hfixed : ¬ IsDotSegment (cp '.') (py "r") ∧ ¬ IsDotSegment (cp '.') (py "say-signed") := by
        decide
      intro seg hseg
      simp only [List.mem_cons, List.not_mem_nil, or_false] at hseg
      rcases hseg with rfl | rfl | rfl | rfl | rfl | rfl | rfl
      · exact hfixed.1
      · exact fun hd => hroomdot ((isDotSegment_encode_iff eroom).mp hd)
      · exact hfixed.2
      · exact fun hd => hother.did ((isDotSegment_encode_iff edid).mp hd)
      · exact fun hd => hother.signature ((isDotSegment_encode_iff esig).mp hd)
      · exact hdot
      · exact fun hd => htextdot ((isDotSegment_encode_iff etext).mp hd)
    rw [dropDotSegments_of_not_dot hnone, List.reverse_nil, List.nil_append,
      intercalate_cons_nil (List.cons_ne_nil _ _), parts_pathOf (List.cons_ne_nil _ _) hsegs]
    have hfixed : unquote (py "r") = py "r" ∧ unquote (py "say-signed") = py "say-signed" :=
      ⟨unquote_of_not_mem (by decide), unquote_of_not_mem (by decide)⟩
    simp only [List.map_cons, List.map_nil, unquote_encodePathSegment eroom, unquote_encodePathSegment edid,
      unquote_encodePathSegment esig, unquote_encodePathSegment etext, hdigitsq, hfixed]
  · intro hdotted
    have hencoded : IsDotSegment (cp '.') room ∨ IsDotSegment (cp '.') text :=
      hdotted.imp (isDotSegment_encode_iff eroom).mpr (isDotSegment_encode_iff etext).mpr
    obtain ⟨segs, slash, hpathOf, hlow, hhigh, hmem⟩ := dropDotSegments_dotted
      (fun hd => hother.did ((isDotSegment_encode_iff edid).mp hd))
      (fun hd => hother.signature ((isDotSegment_encode_iff esig).mp hd)) hdot hencoded
    have hne : segs ≠ [] := by
      rintro rfl
      simp at hlow
    rw [hpathOf, parts_pathOf hne fun seg hseg => hsegs seg (hmem seg hseg), List.length_map]
    exact ⟨hlow, hhigh⟩

/-! ## Delivery -/

section Delivery

variable [PyRuntime] [PyBuiltins] [Ed25519]

/-- What the client makes of a status of an error. -/
def Rejected (reply : Reply) : Prop :=
  ∃ e, TechnocoreClient.serverResult reply = .error e ∧ e.cls = .technocoreError

omit [PyRuntime] [PyBuiltins] [Ed25519] in
theorem rejected_dropped : Rejected dropped := ⟨_, rfl, rfl⟩

omit [PyRuntime] [PyBuiltins] [Ed25519] in
theorem rejected_sendJson (code : Fin 1000) (h : 400 ≤ code.val) (payload : PyVal) :
    Rejected (sendJson code payload) := by
  unfold sendJson
  split
  · exact ⟨_, if_pos h, rfl⟩
  · exact rejected_dropped

omit [PyRuntime] [PyBuiltins] [Ed25519] in
theorem rejected_sendResult (code : Fin 1000) (h : 400 ≤ code.val) (payload : Except Exc PyVal) :
    Rejected (sendResult code payload) := by
  cases payload with
  | ok v => exact rejected_sendJson code h v
  | error e => exact rejected_dropped

omit [PyRuntime] [PyBuiltins] [Ed25519] in
/-- What the client returns for a write that is stored. -/
theorem serverResult_storedJson {seq : Nat} (h : ∃ t, strInt seq = .ok t) :
    TechnocoreClient.serverResult (sendJson 200 (storedJson seq)) = .ok (storedJson seq) := by
  have hjson : (storedJson seq).isJson = true := by
    obtain ⟨t, ht⟩ := h
    show (((strInt seq).isOk) && _) = true
    rw [ht]
    rfl
  unfold sendJson
  rw [dif_pos hjson]
  rfl

omit [Ed25519] in
/-- A nonce as the server reads it back. -/
theorem nonceText_decimalDigits {n : Nat} (hn : n < 10 ^ 19) :
    (!(isdigit (decimalDigits n)) || !(decide (1 ≤ (decimalDigits n).length ∧
      (decimalDigits n).length ≤ 19))) = false ∧ parseInt (decimalDigits n) = .ok n := by
  have hlen := (decimalDigits_length_le_iff (n := n) (k := 19) (by decide)).mpr hn
  have hpos : 1 ≤ (decimalDigits n).length := List.length_pos_of_ne_nil (decimalDigits_ne_nil n)
  refine ⟨?_, parseInt_strInt (strInt_natCast hn)⟩
  rw [isdigit_decimalDigits, decide_eq_true ⟨hpos, hlen⟩]
  rfl

/-- **A write that is signed for what it asks** is stored, unless it comes too often or its nonce is not
new; then the client is refused, and nothing but the time of the request is kept. -/
theorem saySigned_signed {room did sig swept : PyStr} {n : Nat} {payload : Bytes} (hn : n < 10 ^ 19)
    (hbytes : signedBytes room n swept = .ok payload) (hswept : singleLineSweep swept = swept)
    (hv : verify did sig payload = .ok true) (now : ℚ) (ts : PyStr) (s : FakeTechnocoreState) :
    let out := saySigned room did sig (decimalDigits n) swept now ts s
    ((s.rateLimited now).1 = false ∧ s.lastNonce did room < n →
      out = (sendJson 200 (storedJson s.nextSeq), (s.rateLimited now).2.store room did n swept ts)) ∧
    (¬ ((s.rateLimited now).1 = false ∧ s.lastNonce did room < n) →
      out.2 = (s.rateLimited now).2 ∧ Rejected out.1) := by
  obtain ⟨limited, s', hlimit, hlast, hseq⟩ : ∃ limited s', s.rateLimited now = (limited, s') ∧
      s'.lastNonce did room = s.lastNonce did room ∧ s'.nextSeq = s.nextSeq := by
    obtain ⟨limited, times, hlimit⟩ := rateLimited_eq s now
    exact ⟨_, _, hlimit, rfl, rfl⟩
  obtain ⟨hdigits, hparse⟩ := nonceText_decimalDigits hn
  obtain ⟨b, hb, hread⟩ := accepts_eq_ok did sig payload
  rw [hread.mpr (verify_eq_true.mp hv)] at hb
  unfold saySigned
  rw [hlimit]
  dsimp only
  cases limited with
  | true =>
    rw [if_pos rfl]
    refine ⟨fun h => absurd h.1 (by simp), fun _ => ⟨rfl, ?_⟩⟩
    dsimp only
    exact rejected_sendJson 429 (by decide) _
  | false =>
    rw [if_neg Bool.false_ne_true, hdigits, if_neg Bool.false_ne_true, hparse]
    dsimp only
    rw [serverSweep_eq, hswept, hbytes]
    dsimp only
    rw [hb]
    dsimp only
    rw [hlast, hseq]
    constructor
    · rintro ⟨-, hnew⟩
      rw [if_neg (not_le.mpr hnew)]
    · intro hno
      have hold : (n : Int) ≤ s.lastNonce did room := not_lt.mp fun hlt => hno ⟨rfl, hlt⟩
      rw [if_pos hold]
      exact ⟨rfl, rejected_sendResult 400 (by decide) _⟩

/-- A signed write that the server will store: it does not come too often, its nonce is new, and it has no
dot segment. -/
structure Storable (s : FakeTechnocoreState) (w : SignedWrite) (n : Nat) (now : ℚ) : Prop where
  unlimited : (s.rateLimited now).1 = false
  fresh : s.lastNonce w.did w.room < n
  room : ¬ IsDotSegment (cp '.') w.room
  text : ¬ IsDotSegment (cp '.') w.sweptText

omit [PyRuntime] [PyBuiltins] in
/-- What is built has its parts, and a signature of the bytes the server will check. -/
theorem signed_of_build {signer : Signer} {room text : PyStr} {nonce : PyInt} {w : SignedWrite}
    (h : buildSignedMessage signer room nonce text = .ok w) :
    ∃ (n : Nat) (payload : Bytes), nonce = .int n ∧ w.nonce = .int n ∧ n < 10 ^ 19 ∧ w.room = room ∧
      w.did = signer.did.did ∧ w.sweptText = singleLineSweep text ∧ w.room ≠ [] ∧ w.did ≠ [] ∧
      w.signature ≠ [] ∧ w.sweptText ≠ [] ∧ signedBytes w.room n w.sweptText = .ok payload ∧
      verify w.did w.signature payload = .ok true := by
  obtain ⟨payload, signature, hp, -, rfl, hv⟩ := buildSignedMessage_eq_ok.mp h
  obtain ⟨payload', hp', hverify⟩ := verifyMessage_eq_true.mp hv
  rw [messagePayload_congr (singleLineSweep_idem text), hp] at hp'
  cases hp'
  obtain ⟨n, rfl, hn, hroom, hbuilt⟩ := messagePayload_eq_ok.mp hp
  obtain ⟨hne, -, hutf⟩ := hbuilt _ rfl
  obtain ⟨key, raw, hkey, hraw, -⟩ := verify_eq_true.mp hverify
  refine ⟨n, payload, rfl, rfl, hn, rfl, rfl, rfl, hroom.1, ?_, ?_, hne, ?_, hverify⟩
  · intro hdid
    rw [hdid] at hkey
    cases hkey
  · intro hsig
    rw [hsig] at hraw
    cases hraw
  · show (strInt (n : Int) >>= fun digits => utf8 (room ++ cp '|' :: (digits ++ cp '|' :: _))) = _
    rw [strInt_natCast hn]
    exact hutf

/-- **One exchange.** A write that was built is stored exactly if it is storable; then the client gets the
number of its record, and otherwise a `TechnocoreError`, with the rooms and the nonces as they were. -/
theorem exchange {signer : Signer} {room text : PyStr} {nonce : PyInt} {w : SignedWrite}
    (h : buildSignedMessage signer room nonce text = .ok w) (s : FakeTechnocoreState) (now : ℚ) (ts : PyStr) :
    ∃ (path : PyStr) (n : Nat), w.path = .ok path ∧ nonce = .int n ∧
      let out := doGet (wireRequest path []) now ts s
      (Storable s w n now →
        out = (sendJson 200 (storedJson s.nextSeq), (s.rateLimited now).2.store w.room w.did n w.sweptText ts)) ∧
      (¬ Storable s w n now → (∃ times, out.2 = { s with writeTimes := times }) ∧ Rejected out.1) := by
  obtain ⟨n, payload, rfl, hnonce, hn, -, -, htext, hroomne, hdidne, hsigne, htextne, hbytes, hverify⟩ :=
    signed_of_build h
  obtain ⟨hencodable, hother, -, -⟩ := encodable_of_build h
  obtain ⟨path, digits, hpath, hdigits, hplain, hdotted⟩ :=
    wire_write hencodable hother hroomne hdidne hsigne htextne
  obtain rfl : digits = decimalDigits n := by
    rw [hnonce] at hdigits
    exact Except.ok.inj (hdigits.symm.trans (strInt_natCast hn))
  have hswept : singleLineSweep w.sweptText = w.sweptText := by
    rw [htext]
    exact singleLineSweep_idem text
  refine ⟨path, n, hpath, rfl, ?_⟩
  by_cases hdots : IsDotSegment (cp '.') w.room ∨ IsDotSegment (cp '.') w.sweptText
  · -- the path has lost segments, and the server does not know it
    have hnot : ¬ Storable s w n now := fun hs => hdots.elim hs.room hs.text
    rw [doGet_notFound (hdotted hdots)]
    refine ⟨fun hs => absurd hs hnot, fun _ => ⟨⟨s.writeTimes, rfl⟩, ?_⟩⟩
    dsimp only
    exact rejected_sendJson 404 (by decide) _
  · rw [not_or] at hdots
    rw [doGet_write (hplain hdots)]
    have hsay := saySigned_signed hn hbytes hswept hverify now ts s
    have hjoin : [cp '/'].intercalate [w.sweptText] = w.sweptText := by simp
    rw [hjoin]
    dsimp only at hsay ⊢
    refine ⟨fun hs => hsay.1 ⟨hs.unlimited, hs.fresh⟩, fun hs => ?_⟩
    obtain ⟨hstate, hreply⟩ := hsay.2 fun hok => hs ⟨hok.1, hok.2, hdots.1, hdots.2⟩
    obtain ⟨limited, times, hlimit⟩ := rateLimited_eq s now
    rw [hlimit] at hstate
    exact ⟨⟨times, hstate⟩, hreply⟩

omit [PyRuntime] [PyBuiltins] [Ed25519] in
/-- Of the records of a room, one has the sender and the nonce of a record that is there. -/
theorem filter_author {b : Board} {name : PyStr} {m : Stored} (h : (⟨name, m⟩ : Post) ∈ b.log) :
    (b.room name).filter (fun x => x.sender = m.sender ∧ x.nonce = m.nonce) = [m] := by
  have hmem : ∀ x, x ∈ b.room name ↔ (⟨name, x⟩ : Post) ∈ b.log := by
    intro x
    unfold Board.room
    rw [List.mem_map]
    constructor
    · rintro ⟨p, hp, rfl⟩
      rw [List.mem_filter, decide_eq_true_eq] at hp
      rw [← hp.2]
      exact hp.1
    · exact fun hx => ⟨⟨name, x⟩, List.mem_filter.mpr ⟨hx, decide_eq_true rfl⟩, rfl⟩
  have hnodup : (b.room name).Nodup := (b.room_pairwise name).imp fun hlt heq => by
    rw [heq] at hlt
    exact lt_irrefl _ hlt
  refine List.perm_singleton.mp ((List.perm_ext_iff_of_nodup (hnodup.filter _) (List.nodup_singleton m)).mpr ?_)
  intro x
  rw [List.mem_filter, decide_eq_true_eq, List.mem_singleton, hmem]
  constructor
  · rintro ⟨hx, hsender, hnonce⟩
    exact congrArg Post.record (b.ascending.unique hx h (Prod.ext hsender rfl) hnonce)
  · rintro rfl
    exact ⟨h, rfl, rfl⟩

/-- **Exactly once.** Whatever requests the server has seen: a write that is built and storable is confirmed
with the number of its record, and whatever requests follow, its room then holds one record of this did and
this nonce, with the swept text. One that is not storable is refused, and the rooms stay as they were. -/
theorem exactly_once {signer : Signer} {room text : PyStr} {nonce : PyInt} {w : SignedWrite}
    (h : buildSignedMessage signer room nonce text = .ok w) (writes reads : Int) (before after : List Arrival)
    (now : ℚ) (ts : PyStr)
    (hseq : ∃ t, strInt (serve before (.initial writes reads)).2.nextSeq = .ok t) :
    let s := (serve before (.initial writes reads)).2
    ∃ (path : PyStr) (n : Nat), w.path = .ok path ∧ nonce = .int n ∧
      let out := doGet (wireRequest path []) now ts s
      let final := (serve after out.2).2
      (Storable s w n now → TechnocoreClient.serverResult out.1 = .ok (storedJson s.nextSeq) ∧
        (final.room room).filter (fun m => m.sender = signer.did.did ∧ m.nonce = (n : Int)) =
          [⟨s.nextSeq, ts, signer.did.did, n, singleLineSweep text⟩]) ∧
      (¬ Storable s w n now → Rejected out.1 ∧ ∀ name, out.2.room name = s.room name) := by
  obtain ⟨b, hb, -, -, -⟩ := serve_refines (represents_initial writes reads) before
  obtain ⟨n, payload, rfl, -, -, rfl, hdid, htext, -, -, -, -, hbytes, -⟩ := signed_of_build h
  obtain ⟨path, n', hpath, hn, hexchange⟩ := exchange h (serve before (.initial writes reads)).2 now ts
  obtain rfl : n = n' := Int.ofNat.inj (PyInt.int.inj hn)
  refine ⟨path, n, hpath, rfl, fun hs => ?_, fun hs => ?_⟩
  · rw [hexchange.1 hs]
    refine ⟨serverResult_storedJson hseq, ?_⟩
    obtain ⟨limited, times, hlimit⟩ :=
      rateLimited_eq (serve before (FakeTechnocoreState.initial writes reads)).2 now
    rw [hlimit]
    -- the record is on the board, and stays there
    have hpos : (0 : Int) < n := lt_of_le_of_lt (hb.lastNonce_nonneg _ _) hs.fresh
    have htakes : b.Takes ⟨w.room, (serve before (.initial writes reads)).2.nextSeq, ts, w.did, n, w.sweptText⟩ :=
      ⟨hb.nextSeq, hpos, (hb.fresh_iff (p := ⟨w.room, _, ts, w.did, n, w.sweptText⟩) hpos).mpr hs.fresh,
        payload, hbytes⟩
    obtain ⟨b', hb', hpre, -, -⟩ := serve_refines ((hb.times times).store htakes) after
    have hpost := hpre.subset (List.mem_append_right b.log (List.mem_singleton_self
      (⟨w.room, (serve before (.initial writes reads)).2.nextSeq, ts, w.did, n, w.sweptText⟩ : Post)))
    have hone := filter_author hpost
    rw [← hb'.room, hdid, htext] at hone
    rw [hdid, htext]
    exact hone
  · obtain ⟨⟨times, hstate⟩, hrejected⟩ := hexchange.2 hs
    refine ⟨hrejected, fun name => ?_⟩
    rw [hstate]
    rfl

end Delivery

section Lobby

attribute [local instance] asciiRuntime asciiBuiltins acceptAll

/-- A write of `lobbySigner` into the lobby, which comes at the time 0. -/
def lobbyWrite (nonce : Nat) (text : String) : Arrival where
  request := ⟨py "/r/lobby/say-signed/" ++ (lobbyMessage text).did ++ py "/" ++
    (lobbyMessage text).signature ++ py "/" ++ decimalDigits nonce ++ py "/" ++ py text, []⟩
  now := 0
  ts := py "now"

/-- The record it makes. -/
def lobbyRecord (seq nonce : Nat) (text : String) : Stored :=
  ⟨seq, py "now", lobbySigner.did.did, nonce, py text⟩

/-- The stand-in with these records in its lobby, each written at the time 0. -/
def lobbyState (nonce : Int) (records : List Stored) : FakeTechnocoreState :=
  { FakeTechnocoreState.initial 30 120 with
    nonces := [((lobbySigner.did.did, py "lobby"), nonce)]
    nextSeq := records.length + 1
    writeTimes := records.map fun _ => 0
    rooms := [(py "lobby", records)] }

theorem serve_nil (s : FakeTechnocoreState) : (serve [] s).2 = s := rfl

theorem serve_cons (a : Arrival) (later : List Arrival) (s : FakeTechnocoreState) :
    (serve (a :: later) s).2 = (serve later (doGet a.request a.now a.ts s).2).2 := rfl

theorem rateLimited_zero {s : FakeTechnocoreState} (htimes : ∀ t ∈ s.writeTimes, t = 0)
    (hfew : (s.writeTimes.length : Int) < s.writesPerMinute) :
    s.rateLimited 0 = (false, { s with writeTimes := s.writeTimes ++ [0] }) := by
  have hall : s.writeTimes.filter (fun t => 0 - t < 60) = s.writeTimes := by
    refine List.filter_eq_self.mpr fun t ht => ?_
    rw [htimes t ht]
    norm_num
  unfold FakeTechnocoreState.rateLimited
  rw [hall]
  exact if_neg (not_le.mpr hfew)

/-- A write into the lobby is stored, if it does not come too often and its nonce is new. -/
theorem serve_arrival (a : Arrival) (n : Nat) (text : String) {payload : Bytes} {s : FakeTechnocoreState}
    (hparts : a.request.parts = [py "r", py "lobby", py "say-signed", lobbySigner.did.did,
      List.replicate 86 (cp 'A'), decimalDigits n, py text])
    (hbytes : signedBytes (py "lobby") n (py text) = .ok payload) (hswept : singleLineSweep (py text) = py text)
    (hn : n < 10 ^ 19) (hnow : a.now = 0) (htimes : ∀ t ∈ s.writeTimes, t = 0)
    (hfew : (s.writeTimes.length : Int) < s.writesPerMinute)
    (hlast : s.lastNonce lobbySigner.did.did (py "lobby") < n) (later : List Arrival) :
    (serve (a :: later) s).2 =
      (serve later (FakeTechnocoreState.store { s with writeTimes := s.writeTimes ++ [0] } (py "lobby")
        lobbySigner.did.did n (py text) a.ts)).2 := by
  obtain ⟨key, hkey⟩ := lobbySigner.did.valid
  have hraw : decodeSignature (List.replicate 86 (cp 'A')) = .ok (List.replicate 64 0) := by decide
  have hv : verify lobbySigner.did.did (List.replicate 86 (cp 'A')) payload = .ok true :=
    verify_eq_true.mpr ⟨key, _, hkey, hraw, rfl⟩
  have hlimit := rateLimited_zero htimes hfew
  have hsay := (saySigned_signed hn hbytes hswept hv 0 a.ts s).1 ⟨by rw [hlimit], hlast⟩
  rw [serve_cons, hnow, doGet_write hparts, show [cp '/'].intercalate [py text] = py text by simp, hsay, hlimit]

/-- It is the last record of a lobby that has some. -/
theorem serve_lobbyState (n : Nat) (text : String) {payload : Bytes} {nonce : Int} {records : List Stored}
    (hparts : (lobbyWrite n text).request.parts = [py "r", py "lobby", py "say-signed", lobbySigner.did.did,
      List.replicate 86 (cp 'A'), decimalDigits n, py text])
    (hbytes : signedBytes (py "lobby") n (py text) = .ok payload) (hswept : singleLineSweep (py text) = py text)
    (hn : n < 10 ^ 19) (hlast : nonce < n) (hfew : (records.length : Int) < 30) (later : List Arrival) :
    (serve (lobbyWrite n text :: later) (lobbyState nonce records)).2 =
      (serve later (lobbyState n (records ++ [lobbyRecord (records.length + 1) n text]))).2 := by
  have htimes : ∀ t ∈ (lobbyState nonce records).writeTimes, t = 0 := by simp [lobbyState]
  have hwrites : ((lobbyState nonce records).writeTimes.length : Int) < 30 := by
    simpa only [lobbyState, List.length_map] using hfew
  have hnonce : (lobbyState nonce records).lastNonce lobbySigner.did.did (py "lobby") = nonce := by
    simp [lobbyState, FakeTechnocoreState.lastNonce, dictGet]
  rw [serve_arrival _ n text hparts hbytes hswept hn rfl htimes hwrites (by rw [hnonce]; exact hlast)]
  simp [lobbyState, lobbyRecord, lobbyWrite, FakeTechnocoreState.store, FakeTechnocoreState.room, dictGet, dictSet]

theorem serve_one (later : List Arrival) :
    (serve (lobbyWrite 3 "one" :: later) (.initial 30 120)).2 =
      (serve later (lobbyState 3 [lobbyRecord 1 3 "one"])).2 := by
  rw [serve_arrival _ 3 "one" (by decide) rfl (by decide) (by decide) rfl
    (fun t ht => absurd ht List.not_mem_nil) (by decide) (by decide)]
  rfl

/-- A write between two others of the same key. -/
theorem exactly_once_lobby :
    ∃ w path, w.path = .ok path ∧
      buildSignedMessage (ephemeralSigner zeroHandle) (py "lobby") (.int 5) (py "hello") = .ok w ∧
      let out := doGet (wireRequest path []) 0 (py "now") (serve [lobbyWrite 3 "one"] (.initial 30 120)).2
      TechnocoreClient.serverResult out.1 = .ok (storedJson 2) ∧
        ((serve [lobbyWrite 7 "two"] out.2).2.room (py "lobby")).filter
            (fun m => m.sender = (ephemeralSigner zeroHandle).did.did ∧ m.nonce = ((5 : Nat) : Int)) =
          [⟨2, py "now", (ephemeralSigner zeroHandle).did.did, 5, py "hello"⟩] := by
  obtain ⟨w, hw⟩ := lobby_built (py "hello") (by decide)
  obtain ⟨path, n, hpath, hn, hstored, -⟩ :=
    exactly_once hw 30 120 [lobbyWrite 3 "one"] [lobbyWrite 7 "two"] 0 (py "now")
      (by rw [serve_one]; exact ⟨_, strInt_natCast (by decide)⟩)
  obtain ⟨_, _, -, -, -, hroom, hdid, htext, -⟩ := signed_of_build hw
  obtain rfl : n = 5 := (Int.ofNat.inj (PyInt.int.inj hn)).symm
  rw [serve_one, serve_nil] at hstored
  refine ⟨w, path, hpath, hw, ?_⟩
  rw [serve_one, serve_nil]
  refine hstored ⟨?_, ?_, ?_, ?_⟩
  · rw [rateLimited_zero (by simp [lobbyState]) (by decide)]
  · rw [hroom, hdid]
    decide
  · rw [hroom]
    decide
  · rw [htext]
    decide

end Lobby

end FlopOffice.Integration
