/-
# FlopOffice.Integration.ReadBack — what a client reads from the stand-in.

`read_room` returns the records of the room as they were stored, none of them verified: the server keeps
no signatures. `since` and `limit` select among them (`read_back`). Reads that go on from the number the
last one ended with miss nothing and repeat nothing, whatever is written between them; with a `limit` that
is so exactly if no read had more to return (`reads_complete`). `list_rooms` returns the names of the rooms
that have a record (`rooms_listed`).
-/
import FlopOffice.Integration.Exchange
import FlopOffice.Technocore.Reads

namespace FlopOffice.Integration

open FlopOffice.Identity FlopOffice.Lib FlopOffice.Python FlopOffice.Technocore

section Read

variable [PyRuntime] [PyBuiltins]

/-! ## The stand-in as a surface -/

omit [PyBuiltins] in
/-- The text of a query value. -/
def queryText : Scalar → Except Exc PyStr
  | .none => .ok []
  | .bool b => .ok (if b then py "true" else py "false")
  | .int i => strInt i
  | .float f => .ok (reprFloat f)
  | .str s => .ok s
  | .bytes b => .ok (reprBytes b)

/-- The query of a request, as the server parses it: the package that writes it is assumed to encode every
text so that it is read back. -/
def queryOf (params : List (PyStr × Scalar)) : Except Exc (List (PyStr × PyStr)) :=
  params.mapM fun kv => (queryText kv.2).map fun t => (kv.1, t)

/-- The server in state `s`, and a token. A request whose query has no text is not made. -/
def standIn [Ed25519] (s : FakeTechnocoreState) (now : ℚ) (ts retryAfter : PyStr) : Surface where
  acquired := .ok ()
  server path params := match queryOf params with
    | .ok query => (doGet (wireRequest path query) now ts s).1
    | .error _ => dropped
  retryAfter := retryAfter

/-- A record, as the client shows it. -/
def Stored.message (room : PyStr) (m : Stored) : UntrustedMessage where
  room := room
  seq := .leaf (.int m.seq)
  ts := .leaf (.str m.ts)
  text := ⟨m.text⟩
  did := some m.sender
  nonce := some m.nonce
  raw := m.json

/-- A record that `json` can write, of a sender, with a nonce. -/
structure Stored.Plain (m : Stored) : Prop where
  seq : ∃ t, strInt m.seq = .ok t
  nonce : ∃ t, strInt m.nonce = .ok t
  positive : 0 < m.nonce
  sender : m.sender ≠ []

omit [PyRuntime] [PyBuiltins] in
theorem Stored.Plain.isJson {m : Stored} (h : m.Plain) : m.json.isJson = true := by
  obtain ⟨seq, hseq⟩ := h.seq
  obtain ⟨nonce, hnonce⟩ := h.nonce
  show ((strInt m.seq).isOk && (true && (true && ((strInt m.nonce).isOk && (true && true))))) = true
  rw [hseq, hnonce]
  rfl

/-- **A record is wrapped as it was stored**, and unverified. -/
theorem toMessage_json [Ed25519] {m : Stored} (h : m.Plain) (room : PyStr) :
    toMessage room m.json = .ok (m.message room) := by
  obtain ⟨digits, hdigits⟩ := h.nonce
  have hauthor : pyOr (m.json.get (py "from")) (m.json.get (py "did")) = .leaf (.str m.sender) :=
    if_pos (decide_eq_true h.sender)
  have hdid : strIfTrue (.leaf (.str m.sender)) = .ok (some m.sender) :=
    if_pos (decide_eq_true h.sender)
  have hverify : verifyRecord room (.leaf (.str m.sender)) (.leaf .none) (.leaf (.int m.nonce)) m.text =
      .ok false := by
    unfold verifyRecord
    rw [if_neg]
    rw [Bool.and_eq_true, Bool.and_eq_true]
    rintro ⟨⟨-, hsig⟩, -⟩
    cases hsig
  have hnonce : storedNonce (.leaf (.int m.nonce)) = .ok (some m.nonce) := by
    have hnat : m.nonce = (m.nonce.natAbs : Int) := (Int.natAbs_of_nonneg h.positive.le).symm
    have hshown : isdigit digits = true := by
      rw [strInt_eq_ok hdigits, if_neg (not_lt.mpr h.positive.le)]
      exact isdigit_decimalDigits _
    refine storedNonce_eq_some.mpr ⟨⟨rfl, digits, hdigits, hshown⟩, rfl⟩
  rw [← hauthor] at hdid hverify
  show toMessage room (.dict _) = _
  simp only [toMessage, bind_eq_ok]
  exact ⟨m.text, rfl, false, hverify, some m.sender, hdid, none, rfl, none, rfl, some m.nonce, hnonce, rfl⟩

/-! ## What is selected -/

omit [PyRuntime] [PyBuiltins] in
/-- The number of a record, as it is compared with `since`. -/
def Stored.cursor (m : Stored) : Int := m.seq

omit [PyRuntime] [PyBuiltins] in
/-- The last `limit` of the records; a limit that is no number of records cuts at the front. -/
def cutTo (limit : Option Int) (messages : List Stored) : List Stored :=
  match limit with
  | some n => sliceFrom (-n) messages
  | none => messages

omit [PyRuntime] [PyBuiltins] in
theorem cutTo_of_pos {n : Nat} (hn : 0 < n) (messages : List Stored) :
    cutTo (some n) messages = messages.drop (messages.length - n) := by
  unfold cutTo sliceFrom
  dsimp only
  rw [if_pos (by omega)]
  congr 1
  omega

omit [PyBuiltins] in
theorem selectMessages_eq {since limit : Option Int} {c n : Option PyStr}
    (hsince : Option.Rel (fun i t => strInt i = .ok t) since c)
    (hlimit : Option.Rel (fun i t => strInt i = .ok t) limit n) (messages : List Stored) :
    selectMessages c n messages = .ok (cutTo limit (above Stored.cursor since messages)) := by
  have hcut : ∀ rows : List Stored, selectMessages none n rows = .ok (cutTo limit rows) := by
    intro rows
    cases hlimit with
    | none => rfl
    | @some i t hi =>
      show (parseInt t >>= fun n => pure (sliceFrom (-n) rows)) = _
      rw [parseInt_strInt hi]
      rfl
  unfold selectMessages
  cases hsince with
  | none =>
    have hall : above Stored.cursor none messages = messages := by simp [above]
    rw [hall]
    exact hcut messages
  | @some i t hi =>
    dsimp only
    split
    · rename_i hempty
      rw [List.isEmpty_iff.mp hempty]
      exact hcut []
    · rw [parseInt_strInt hi]
      exact hcut (above Stored.cursor (some i) messages)

/-! ## One read -/

section Room

variable [Ed25519]

omit [PyRuntime] [PyBuiltins] [Ed25519] in
/-- The path of a read arrives as two parts, or without its room. -/
theorem parts_read {room segment : PyStr} (hroom : room ≠ []) (h : encodePathSegment room = .ok segment)
    (query : List (PyStr × PyStr)) :
    (¬ IsDotSegment (cp '.') room → (wireRequest (py "/r/" ++ segment) query).parts = [py "r", room]) ∧
    (IsDotSegment (cp '.') room → (wireRequest (py "/r/" ++ segment) query).parts = [py "r"] ∨
      (wireRequest (py "/r/" ++ segment) query).parts = [[]]) := by
  constructor
  · intro hdot
    have hr : ¬ IsDotSegment (cp '.') (py "r") := by decide
    have hfree : ∀ seg ∈ [[], py "r", segment], cp '/' ∉ seg := by
      intro seg hseg
      simp only [List.mem_cons, List.not_mem_nil, or_false] at hseg
      rcases hseg with rfl | rfl | rfl
      · exact List.not_mem_nil
      · decide
      · exact slash_not_mem_encode h
    have hpath : py "/r/" ++ segment = [cp '/'].intercalate [[], py "r", segment] := by
      simp [List.intercalate]
      rfl
    have hnone : ∀ seg ∈ [py "r", segment], ¬ IsDotSegment (cp '.') seg := by
      intro seg hseg
      simp only [List.mem_cons, List.not_mem_nil, or_false] at hseg
      rcases hseg with rfl | rfl
      · exact hr
      · exact fun hd => hdot ((isDotSegment_encode_iff h).mp hd)
    unfold wireRequest removeDotSegments
    rw [hpath, List.splitOn_intercalate (cp '/') hfree (List.cons_ne_nil _ _), List.tail_cons,
      dropDotSegments_of_not_dot hnone, List.reverse_nil, List.nil_append,
      intercalate_cons_nil (List.cons_ne_nil _ _), parts_pathOf (List.cons_ne_nil _ _)]
    · have hfixed : unquote (py "r") = py "r" := unquote_of_not_mem (by decide)
      simp only [List.map_cons, List.map_nil, unquote_encodePathSegment h, hfixed]
    · intro seg hseg
      simp only [List.mem_cons, List.not_mem_nil, or_false] at hseg
      rcases hseg with rfl | rfl
      · decide
      · exact ⟨encodePathSegment_ne_nil h hroom, slash_not_mem_encode h⟩
  · have hone : (wireRequest (py "/r/.") []).parts = [py "r"] := by decide
    have htwo : (wireRequest (py "/r/..") []).parts = [[]] := by decide
    rintro (rfl | rfl)
    · obtain rfl : segment = py "." := (Except.ok.inj h).symm
      exact Or.inl hone
    · obtain rfl : segment = py ".." := (Except.ok.inj h).symm
      exact Or.inr htwo

omit [PyRuntime] [PyBuiltins] [Ed25519] in
/-- A number that has a text. -/
theorem exists_rel_strInt {i : Option Int} (h : ∀ k ∈ i, ∃ t, strInt k = .ok t) :
    ∃ t, Option.Rel (fun k t => strInt k = .ok t) i t := by
  cases i with
  | none => exact ⟨none, .none⟩
  | some k => exact (h k rfl).imp' some fun _ ht => .some ht

omit [Ed25519] [PyBuiltins] in
/-- The query of a read, and what is looked up in it. -/
theorem query_read {since limit : Option Int} {c n : Option PyStr}
    (hsince : Option.Rel (fun i t => strInt i = .ok t) since c)
    (hlimit : Option.Rel (fun i t => strInt i = .ok t) limit n) :
    ∃ query, queryOf ((py "format", Scalar.str (py "json")) ::
        ((since.toList.map fun i => (py "since", Scalar.int i)) ++
          limit.toList.map fun i => (py "limit", Scalar.int i))) = .ok query ∧
      ∀ path, Request.param ⟨path, query⟩ (py "since") = c ∧ Request.param ⟨path, query⟩ (py "limit") = n := by
  have hmap : ∀ {i : Int} {t : PyStr} (name : PyStr), strInt i = .ok t →
      (queryText (.int i)).map (fun t => (name, t)) = .ok (name, t) := by
    intro i t name h
    show (strInt i).map _ = _
    rw [h]
    rfl
  refine ⟨(py "format", py "json") :: ((c.toList.map fun t => (py "since", t)) ++
    n.toList.map fun t => (py "limit", t)), ?_, fun path => ?_⟩
  · refine mapM_eq_ok_iff.mpr (.cons rfl ?_)
    cases hsince with
    | none =>
      cases hlimit with
      | none => exact .nil
      | some hl => exact .cons (hmap _ hl) .nil
    | some hs =>
      cases hlimit with
      | none => exact .cons (hmap _ hs) .nil
      | some hl => exact .cons (hmap _ hs) (.cons (hmap _ hl) .nil)
  · cases c with
    | none =>
      cases n with
      | none => exact ⟨rfl, rfl⟩
      | some l => exact ⟨rfl, rfl⟩
    | some k =>
      cases n with
      | none => exact ⟨rfl, rfl⟩
      | some l => exact ⟨rfl, rfl⟩

omit [PyRuntime] [PyBuiltins] [Ed25519] in
/-- A room of records that `json` can write. -/
theorem isJson_roomJson (room : PyStr) {messages : List Stored} (h : ∀ m ∈ messages, m.Plain) :
    (roomJson room messages).isJson = true := by
  have hlist : isJsonList (messages.map Stored.json) = true := by
    rw [isJsonList_iff]
    intro v hv
    obtain ⟨m, hm, rfl⟩ := List.mem_map.mp hv
    exact (h m hm).isJson
  cases messages with
  | nil => rfl
  | cons m later =>
    obtain ⟨digits, hdigits⟩ := (h m List.mem_cons_self).seq
    show (true && (isJsonList ((m :: later).map Stored.json) && ((strInt m.seq).isOk && true))) = true
    rw [hlist, hdigits]
    rfl

omit [PyRuntime] [PyBuiltins] [Ed25519] in
theorem mem_cutTo {limit : Option Int} {messages : List Stored} {m : Stored}
    (h : m ∈ cutTo limit messages) : m ∈ messages := by
  cases limit with
  | none => exact h
  | some n => exact List.mem_of_mem_drop h

/-- **A read of a room** returns what is selected of it, as it was stored; a room of dots is not found. -/
theorem readRoom_standIn {s : FakeTechnocoreState} {room : PyStr} (hroom : validateRoom room = .ok room)
    (hplain : ∀ m ∈ s.room room, m.Plain) {since limit : Option Int}
    (hsince : ∀ i ∈ since, ∃ t, strInt i = .ok t) (hlimit : ∀ i ∈ limit, ∃ t, strInt i = .ok t)
    (now : ℚ) (ts retryAfter : PyStr) :
    (¬ IsDotSegment (cp '.') room → readRoom (standIn s now ts retryAfter) room since limit =
      .ok ((cutTo limit (above Stored.cursor since (s.room room))).map (Stored.message room))) ∧
    (IsDotSegment (cp '.') room → ∃ e, readRoom (standIn s now ts retryAfter) room since limit = .error e ∧
      e.cls = .technocoreError) := by
  -- a room that is accepted has a path segment
  obtain ⟨hne, -, hswept, -⟩ := (validateRoom_eq_ok.mp hroom).1
  obtain ⟨b, hb⟩ := utf8_of_not_swept (singleLineSweep_eq_self_iff.mp hswept).1
  obtain ⟨segment, hsegment⟩ : ∃ segment, encodePathSegment room = .ok segment :=
    ⟨_, map_eq_ok.mpr ⟨b, hb, rfl⟩⟩
  obtain ⟨c, hc⟩ := exists_rel_strInt hsince
  obtain ⟨n, hn⟩ := exists_rel_strInt hlimit
  obtain ⟨query, hquery, hparam⟩ := query_read hc hn
  obtain ⟨hplainpath, hdotted⟩ := parts_read hne hsegment query
  unfold readRoom
  rw [hroom]
  dsimp only [bind, Except.bind]
  rw [hsegment]
  dsimp only
  unfold Surface.get standIn
  dsimp only
  rw [hquery]
  dsimp only
  constructor
  · -- the path arrives as two parts, and the read is answered
    intro hdot
    have hall : ∀ m ∈ cutTo limit (above Stored.cursor since (s.room room)), m.Plain := fun m hm =>
      hplain m (List.mem_of_mem_filter (mem_cutTo hm))
    have hjson := isJson_roomJson room hall
    rw [doGet_room (hplainpath hdot)]
    dsimp only [wireRequest]
    rw [(hparam _).1, (hparam _).2, selectMessages_eq hc hn]
    dsimp only [Except.map, sendResult, sendJson]
    rw [dif_pos hjson]
    show List.mapM (toMessage room) (List.map Stored.json _) = _
    refine mapM_eq_ok_iff.mpr ?_
    rw [List.forall₂_map_left_iff, List.forall₂_map_right_iff]
    exact List.forall₂_same.mpr fun m hm => toMessage_json (hall m hm) room
  · -- the room is gone from the path, and no route is left
    intro hdot
    have hnot : doGet (wireRequest (py "/r/" ++ segment) query) now ts s =
        (sendJson 404 (errorJson (py "not found")), s) := by
      rcases hdotted hdot with hd | hd
      · exact doGet_notFound_one hd (by decide) now ts s
      · exact doGet_notFound_one hd (by decide) now ts s
    rw [hnot]
    exact ⟨_, rfl, rfl⟩

/-! ## Reads of a run -/

/-- What was stored in a run is plain, as long as the numbers have a text. -/
theorem plain_of_serve {writes reads : Int} {arrivals : List Arrival}
    (hseq : ∃ t, strInt (serve arrivals (.initial writes reads)).2.nextSeq = .ok t) {room : PyStr} {m : Stored}
    (hm : m ∈ (serve arrivals (.initial writes reads)).2.room room) : m.Plain := by
  obtain ⟨b, hb, -, hmem, -⟩ := serve_refines (represents_initial writes reads) arrivals
  have hpost := hb.mem_room_iff.mp hm
  obtain ⟨payload, hpayload⟩ := b.written _ hpost
  obtain ⟨digits, hdigits, -⟩ := bind_eq_ok.mp hpayload
  refine ⟨?_, ⟨digits, hdigits⟩, b.positive _ hpost, ?_⟩
  · have hle := (Board.seq_le hpost).2
    rw [hb.nextSeq, strInt_isOk_iff] at hseq
    have hbelow : m.seq ≤ b.log.length + 1 := Nat.le_succ_of_le hle
    exact strInt_isOk_iff.mpr (lt_of_le_of_lt hbelow hseq)
  · -- a did that verifies is not empty
    rcases hmem _ hpost with hnil | ⟨a, -, sig, nonceText, text, more, payload', -, -, -, -, hverify⟩
    · exact absurd hnil List.not_mem_nil
    · obtain ⟨key, -, hkey, -⟩ := verify_eq_true.mp hverify
      rintro hempty
      have hnone : decodeDidKey m.sender = .ok key := hkey
      rw [hempty] at hnone
      cases hnone

/-- **Reading back.** In every run, a read of a room whose name is accepted returns the records of the room
as they were stored, in order: of those with a number above `since`, what `limit` leaves. Each has the did,
the nonce and the text it was stored with, and none is verified. A room of dots is not found. -/
theorem read_back (writes reads : Int) (arrivals : List Arrival)
    (hseq : ∃ t, strInt (serve arrivals (.initial writes reads)).2.nextSeq = .ok t) {room : PyStr}
    (hroom : validateRoom room = .ok room) {since limit : Option Int}
    (hsince : ∀ i ∈ since, ∃ t, strInt i = .ok t) (hlimit : ∀ i ∈ limit, ∃ t, strInt i = .ok t)
    (now : ℚ) (ts retryAfter : PyStr) :
    let s := (serve arrivals (.initial writes reads)).2
    (¬ IsDotSegment (cp '.') room → readRoom (standIn s now ts retryAfter) room since limit =
      .ok ((cutTo limit (above Stored.cursor since (s.room room))).map (Stored.message room))) ∧
    (IsDotSegment (cp '.') room → ∃ e, readRoom (standIn s now ts retryAfter) room since limit = .error e ∧
      e.cls = .technocoreError) :=
  readRoom_standIn hroom (fun _ hm => plain_of_serve hseq hm) hsince hlimit now ts retryAfter

/-! ## Reads that go on -/

omit [PyRuntime] [PyBuiltins] [Ed25519] in
/-- The number of the last message, or the one before if there is none. -/
def lastSeq (since : Option Int) (messages : List UntrustedMessage) : Option Int :=
  match messages.getLast? with
  | some m => match m.seq with
    | .leaf (.int i) => some i
    | _ => since
  | none => since

/-- Reads of a room, one after the other, each `since` the number the one before ended with. Before every
read the server takes some requests. -/
def readOn (room : PyStr) (limit : Option Int) (retryAfter : PyStr) :
    Option Int → List (List Arrival) → FakeTechnocoreState → Except Exc (List (List UntrustedMessage))
  | _, [], _ => .ok []
  | since, arrivals :: later, s => do
    let s := (serve arrivals s).2
    let messages ← readRoom (standIn s 0 [] retryAfter) room since limit
    let rest ← readOn room limit retryAfter (lastSeq since messages) later s
    pure (messages :: rest)

/-- The room, at every read. -/
def snapshots (room : PyStr) : List (List Arrival) → FakeTechnocoreState → List (List Stored)
  | [], _ => []
  | arrivals :: later, s => (serve arrivals s).2.room room :: snapshots room later (serve arrivals s).2

omit [PyRuntime] [PyBuiltins] [Ed25519] in
theorem lastSeq_map (since : Option Int) (room : PyStr) (messages : List Stored) :
    lastSeq since (messages.map (Stored.message room)) = advance Stored.cursor since messages := by
  unfold lastSeq advance
  rw [List.getLast?_map]
  cases messages.getLast? with
  | none => rfl
  | some m => rfl

theorem serve_flatten_cons (arrivals : List Arrival) (later : List (List Arrival)) (s : FakeTechnocoreState) :
    (serve (arrivals :: later).flatten s).2 = (serve later.flatten (serve arrivals s).2).2 := by
  rw [List.flatten_cons, serve_append]

/-- The reads are polls of the snapshots. -/
theorem readOn_eq_polls {writes reads : Int} {room : PyStr} (hroom : validateRoom room = .ok room)
    (hdot : ¬ IsDotSegment (cp '.') room) {limit : Option Int}
    (hlimit : ∀ i ∈ limit, ∃ t, strInt i = .ok t) (retryAfter : PyStr) (before : List Arrival)
    (batches : List (List Arrival))
    (hseq : ∃ t, strInt (serve (before ++ batches.flatten) (.initial writes reads)).2.nextSeq = .ok t)
    {since : Option Int} (hsince : ∀ i ∈ since, ∃ t, strInt i = .ok t) :
    readOn room limit retryAfter since batches (serve before (.initial writes reads)).2 =
      .ok ((polls Stored.cursor (cutTo limit) since
        (snapshots room batches (serve before (.initial writes reads)).2)).map fun batch =>
          batch.map (Stored.message room)) := by
  induction batches generalizing before since with
  | nil => rfl
  | cons arrivals later ih =>
    have hassoc : before ++ (arrivals :: later).flatten = (before ++ arrivals) ++ later.flatten := by
      rw [List.flatten_cons, List.append_assoc]
    rw [hassoc] at hseq
    -- numbers only grow, so those of this read have a text, too
    have hseq' : ∃ t, strInt (serve (before ++ arrivals) (.initial writes reads)).2.nextSeq = .ok t := by
      obtain ⟨b, hb, -⟩ := serve_refines (represents_initial writes reads) (before ++ arrivals)
      obtain ⟨b', hb', hpre, -⟩ := serve_refines hb later.flatten
      rw [serve_append, hb'.nextSeq, strInt_isOk_iff] at hseq
      rw [hb.nextSeq, strInt_isOk_iff]
      refine lt_of_le_of_lt ?_ hseq
      show b.log.length + 1 ≤ b'.log.length + 1
      exact Nat.succ_le_succ hpre.length_le
    have hplain : ∀ m ∈ (serve (before ++ arrivals) (.initial writes reads)).2.room room, m.Plain :=
      fun _ hm => plain_of_serve hseq' hm
    have hread := (readRoom_standIn hroom hplain hsince hlimit 0 [] retryAfter).1 hdot
    have hnext : ∀ i ∈ advance Stored.cursor since (cutTo limit (above Stored.cursor since
        ((serve (before ++ arrivals) (.initial writes reads)).2.room room))), ∃ t, strInt i = .ok t := by
      intro i hi
      unfold advance at hi
      rw [Option.mem_def, Option.or_eq_some_iff] at hi
      rcases hi with hi | ⟨-, hi⟩
      · obtain ⟨m, hm, rfl⟩ := Option.map_eq_some_iff.mp hi
        exact (plain_of_serve hseq' (List.mem_of_mem_filter (mem_cutTo (List.mem_of_getLast? hm)))).seq
      · exact hsince i hi
    have hrest := ih (before ++ arrivals) hseq hnext
    rw [serve_append] at hread hrest
    unfold readOn
    dsimp only
    rw [hread]
    show (readOn room limit retryAfter (lastSeq since _) later _ >>= fun _ => _) = _
    rw [lastSeq_map, hrest]
    rfl

/-- The snapshots grow, end with the last state, and are ordered. -/
theorem growing_snapshots {b : Board} {s : FakeTechnocoreState} (h : Represents b s) (room : PyStr)
    (batches : List (List Arrival)) :
    Growing (s.room room :: snapshots room batches s) ∧
      (s.room room :: snapshots room batches s).getLast (List.cons_ne_nil _ _) =
        (serve batches.flatten s).2.room room ∧
      ∀ rows ∈ snapshots room batches s, rows.Pairwise fun m m' => m.cursor < m'.cursor := by
  induction batches generalizing b s with
  | nil => exact ⟨List.isChain_singleton _, rfl, nofun⟩
  | cons arrivals later ih =>
    obtain ⟨b', hb', hpre, -⟩ := serve_refines h arrivals
    obtain ⟨hgrow, hlast, hordered⟩ := ih hb'
    refine ⟨List.isChain_cons_cons.mpr ⟨?_, hgrow⟩, ?_, List.forall_mem_cons.mpr ⟨?_, hordered⟩⟩
    · rw [h.room, hb'.room]
      exact Board.room_prefix hpre room
    · rw [serve_flatten_cons, ← hlast]
      exact List.getLast_cons (List.cons_ne_nil _ _)
    · rw [hb'.room]
      exact (b'.room_pairwise room).imp fun hlt => Int.ofNat_lt.mpr hlt

/-- **Reads that go on.** Whatever the server takes between them, reads of a room that each start from the
number the last one ended with return every record of the room once, in order; with a `limit` they do
exactly if no read had more records to return. -/
theorem reads_complete (writes reads : Int) {room : PyStr} (hroom : validateRoom room = .ok room)
    (hdot : ¬ IsDotSegment (cp '.') room) {limit : Option Nat}
    (hlimit : ∀ n ∈ limit, 0 < n ∧ ∃ t, strInt n = .ok t) (retryAfter : PyStr) (batches : List (List Arrival))
    (hseq : ∃ t, strInt (serve batches.flatten (.initial writes reads)).2.nextSeq = .ok t) :
    ∃ answers, readOn room (limit.map Nat.cast) retryAfter none batches (.initial writes reads) = .ok answers ∧
      (answers.flatten = ((serve batches.flatten (.initial writes reads)).2.room room).map
          (Stored.message room) ↔
        ∀ n ∈ limit, ∀ batch ∈ polls Stored.cursor id none (snapshots room batches (.initial writes reads)),
          batch.length ≤ n) := by
  obtain ⟨hgrow, hlast, hordered⟩ := growing_snapshots (represents_initial writes reads) room batches
  have hempty : Growing ([] :: snapshots room batches (.initial writes reads)) := hgrow
  have hall := flatten_polls hempty hordered
  rw [List.nil_append] at hall
  have hfinal : (polls Stored.cursor id none (snapshots room batches (.initial writes reads))).flatten =
      (serve batches.flatten (.initial writes reads)).2.room room := hall.trans hlast
  have hinj : Function.Injective (Stored.message room) := by
    intro m m' h
    obtain ⟨seq, ts, sender, nonce, text⟩ := m
    obtain ⟨seq', ts', sender', nonce', text'⟩ := m'
    simp only [Stored.message, UntrustedMessage.mk.injEq, PyVal.leaf.injEq, Scalar.int.injEq, Scalar.str.injEq,
      UntrustedText.mk.injEq, Option.some.injEq, Int.natCast_inj, true_and] at h
    obtain ⟨rfl, rfl, rfl, rfl, rfl, -⟩ := h
    rfl
  have hread : ∀ i ∈ limit.map Nat.cast, ∃ t, strInt i = .ok t := by
    intro i hi
    obtain ⟨n, hn, rfl⟩ := Option.map_eq_some_iff.mp hi
    exact (hlimit n hn).2
  refine ⟨_, readOn_eq_polls hroom hdot hread retryAfter [] batches hseq nofun, ?_⟩
  show List.flatten (List.map _ (polls _ _ none (snapshots room batches (.initial writes reads)))) = _ ↔ _
  rw [← hfinal, ← List.map_flatten, hinj.list_map.eq_iff]
  cases limit with
  | none => exact iff_of_true rfl nofun
  | some n =>
    have hcut : cutTo (Option.map Nat.cast (some n)) = fun batch : List Stored => batch.drop (batch.length - n) :=
      funext fun batch => cutTo_of_pos (hlimit n rfl).1 batch
    rw [hcut, polls_cut (hlimit n rfl).1, flatten_cut_eq_iff]
    simp only [Option.mem_some_iff, forall_eq']

/-! ## The list of rooms -/

omit [PyRuntime] [PyBuiltins] [Ed25519] in
theorem strLe_total (a b : PyStr) : strLe a b = true ∨ strLe b a = true := by
  induction a generalizing b with
  | nil => exact Or.inl rfl
  | cons c a ih =>
    cases b with
    | nil => exact Or.inr rfl
    | cons d b =>
      simp only [strLe, Bool.or_eq_true, Bool.and_eq_true, decide_eq_true_eq, beq_iff_eq]
      rcases Nat.lt_trichotomy c.val d.val with hlt | heq | hgt
      · exact Or.inl (Or.inl hlt)
      · obtain rfl := CodePoint.ext heq
        exact (ih b).imp (fun h => Or.inr ⟨rfl, h⟩) fun h => Or.inr ⟨rfl, h⟩
      · exact Or.inr (Or.inl hgt)

omit [PyRuntime] [PyBuiltins] [Ed25519] in
theorem strLe_trans {a b c : PyStr} (hab : strLe a b = true) (hbc : strLe b c = true) :
    strLe a c = true := by
  induction a generalizing b c with
  | nil => rfl
  | cons x a ih =>
    cases b with
    | nil => cases hab
    | cons y b =>
      cases c with
      | nil => cases hbc
      | cons z c =>
        simp only [strLe, Bool.or_eq_true, Bool.and_eq_true, decide_eq_true_eq, beq_iff_eq] at hab hbc ⊢
        rcases hab with hxy | ⟨rfl, hab⟩
        · rcases hbc with hyz | ⟨rfl, -⟩
          · exact Or.inl (Nat.lt_trans hxy hyz)
          · exact Or.inl hxy
        · exact hbc.imp_right fun ⟨hxz, hbc⟩ => ⟨hxz, ih hab hbc⟩

/-- What the stand-in lists is read as it is. -/
theorem listRooms_standIn (s : FakeTechnocoreState) (now : ℚ) (ts retryAfter : PyStr) :
    listRooms (standIn s now ts retryAfter) =
      .ok (((s.rooms.map Prod.fst).insertionSort fun a b => strLe a b = true).map fun name =>
        ⟨name, some ⟨py "topic for " ++ name⟩, .record [(py "room", .leaf (.str name)),
          (py "topic", .leaf (.str (py "topic for " ++ name)))]⟩) := by
  have hjson : (roomsJson s).isJson = true := by
    show (isJsonList _ && true) = true
    rw [Bool.and_true, isJsonList_iff]
    intro v hv
    obtain ⟨name, -, rfl⟩ := List.mem_map.mp hv
    rfl
  have hget : doGet (wireRequest (py "/rooms") [(py "format", py "json")]) now ts s =
      (sendJson 200 (roomsJson s), s) := by
    have hpath : (wireRequest (py "/rooms") [(py "format", py "json")]).path = py "/rooms" := by decide
    have hne : py "/rooms" ≠ py "/.well-known/agent.json" := by decide
    unfold doGet
    rw [hpath, if_neg hne, if_pos rfl]
  unfold listRooms Surface.get standIn
  dsimp only
  have hquery : queryOf [(py "format", Scalar.str (py "json"))] = .ok [(py "format", py "json")] := rfl
  rw [hquery]
  dsimp only
  rw [hget]
  unfold sendJson
  rw [dif_pos hjson]
  show Except.map List.reduceOption (List.mapM toRoom (List.map _ _)) = _
  generalize (s.rooms.map Prod.fst).insertionSort (fun a b => strLe a b = true) = names
  -- every entry has a name and a topic
  have hrooms : List.mapM toRoom (names.map fun name => PyVal.record [(py "room", .leaf (.str name)),
      (py "topic", .leaf (.str (py "topic for " ++ name)))]) =
      .ok (names.map fun name => some ⟨name, some ⟨py "topic for " ++ name⟩,
        .record [(py "room", .leaf (.str name)), (py "topic", .leaf (.str (py "topic for " ++ name)))]⟩) := by
    refine mapM_eq_ok_iff.mpr ?_
    rw [List.forall₂_map_left_iff, List.forall₂_map_right_iff]
    refine List.forall₂_same.mpr fun name _ => ?_
    show toRoom (.dict _) = _
    simp only [toRoom, bind_eq_ok]
    refine ⟨name, ?_, some (py "topic for " ++ name), if_pos rfl, rfl⟩
    show (pyOr (pyOr (.leaf (.str name)) (.leaf .none)) (.leaf (.str []))).str = _
    unfold pyOr
    by_cases hname : name = []
    · subst hname
      rfl
    · have htrue : (PyVal.leaf (.str name)).truthy = true := decide_eq_true hname
      rw [if_pos htrue, if_pos htrue]
      rfl
  rw [hrooms]
  show Except.ok (List.filterMap id _) = _
  rw [List.filterMap_map]
  simp

/-- **The rooms.** After any requests, `list_rooms` returns the names of exactly the rooms that have a
record, each once, ordered by code points. -/
theorem rooms_listed (writes reads : Int) (arrivals : List Arrival) (now : ℚ) (ts retryAfter : PyStr) :
    let s := (serve arrivals (.initial writes reads)).2
    ∃ rooms, listRooms (standIn s now ts retryAfter) = .ok rooms ∧
      (∀ name, name ∈ rooms.map UntrustedRoom.name ↔ s.room name ≠ []) ∧
      (rooms.map UntrustedRoom.name).Nodup ∧
      (rooms.map UntrustedRoom.name).Pairwise fun a b => strLe a b = true := by
  obtain ⟨b, hb, -, -, -⟩ := serve_refines (represents_initial writes reads) arrivals
  refine ⟨_, listRooms_standIn _ now ts retryAfter, ?_⟩
  have hnames : ∀ names : List PyStr, List.map UntrustedRoom.name (names.map fun name =>
      ⟨name, some ⟨py "topic for " ++ name⟩, .record [(py "room", .leaf (.str name)),
        (py "topic", .leaf (.str (py "topic for " ++ name)))]⟩) = names := by
    intro names
    rw [List.map_map]
    exact List.map_id names
  rw [hnames]
  have hperm := List.perm_insertionSort (fun a b => strLe a b = true)
    ((serve arrivals (.initial writes reads)).2.rooms.map Prod.fst)
  refine ⟨fun name => ?_, hperm.nodup_iff.mpr hb.nodup, ?_⟩
  · rw [hperm.mem_iff, hb.names, hb.room]
    constructor
    · rintro ⟨p, hp, rfl⟩
      exact List.ne_nil_of_mem (List.mem_map.mpr ⟨p, List.mem_filter.mpr ⟨hp, decide_eq_true rfl⟩, rfl⟩)
    · intro hne
      obtain ⟨m, hm⟩ := List.exists_mem_of_ne_nil _ hne
      obtain ⟨p, hp, -⟩ := List.mem_map.mp hm
      rw [List.mem_filter, decide_eq_true_eq] at hp
      exact ⟨p, hp⟩
  · have : Std.Total fun a b : PyStr => strLe a b = true := ⟨strLe_total⟩
    have : IsTrans PyStr fun a b => strLe a b = true := ⟨fun _ _ _ => strLe_trans⟩
    exact List.pairwise_insertionSort _ _

end Room

end Read

section Lobby

attribute [local instance] asciiRuntime asciiBuiltins acceptAll

theorem validateRoom_lobby : validateRoom (py "lobby") = .ok (py "lobby") := by decide

/-- The numbers of the samples have a text. -/
theorem strInt_sample {n : Nat} (hn : n < 10 ^ 19) : ∀ i ∈ some (n : Int), ∃ t, strInt i = .ok t := by
  rintro _ ⟨⟩
  exact ⟨_, strInt_natCast hn⟩

/-- Three records in the lobby. -/
def lobbyRecords : List Stored := [lobbyRecord 1 3 "one", lobbyRecord 2 7 "two", lobbyRecord 3 8 "three"]

theorem serve_two_three (later : List Arrival) :
    (serve (lobbyWrite 7 "two" :: lobbyWrite 8 "three" :: later)
        (lobbyState 3 [lobbyRecord 1 3 "one"])).2 = (serve later (lobbyState 8 lobbyRecords)).2 := by
  rw [serve_lobbyState 7 "two" (by decide) rfl (by decide) (by decide) (by decide) (by decide),
    serve_lobbyState 8 "three" (by decide) rfl (by decide) (by decide) (by decide) (by decide)]
  rfl

theorem serve_three :
    (serve [lobbyWrite 3 "one", lobbyWrite 7 "two", lobbyWrite 8 "three"] (.initial 30 120)).2 =
      lobbyState 8 lobbyRecords := by
  rw [serve_one, serve_two_three, serve_nil]

/-- Of three records, two are above `since` and one is left by `limit`. -/
theorem read_back_lobby :
    readRoom (standIn (serve [lobbyWrite 3 "one", lobbyWrite 7 "two", lobbyWrite 8 "three"]
        (.initial 30 120)).2 0 [] []) (py "lobby") (some 1) (some 1) =
      .ok [(lobbyRecord 3 8 "three").message (py "lobby")] ∧
    readRoom (standIn (serve [lobbyWrite 3 "one", lobbyWrite 7 "two", lobbyWrite 8 "three"]
        (.initial 30 120)).2 0 [] []) (py "lobby") (some 1) none =
      .ok [(lobbyRecord 2 7 "two").message (py "lobby"), (lobbyRecord 3 8 "three").message (py "lobby")] := by
  have hseq : ∃ t, strInt (serve [lobbyWrite 3 "one", lobbyWrite 7 "two", lobbyWrite 8 "three"]
      (.initial 30 120)).2.nextSeq = .ok t := by
    rw [serve_three]
    exact ⟨_, strInt_natCast (by decide)⟩
  have hcut := (read_back 30 120 _ hseq validateRoom_lobby (strInt_sample (by decide : 1 < 10 ^ 19))
    (strInt_sample (by decide : 1 < 10 ^ 19)) 0 [] []).1 (by decide)
  have hall := (read_back 30 120 _ hseq validateRoom_lobby (strInt_sample (by decide : 1 < 10 ^ 19))
    (show ∀ i ∈ (none : Option Int), ∃ t, strInt i = .ok t from nofun) 0 [] []).1 (by decide)
  rw [serve_three] at hcut hall ⊢
  exact ⟨hcut.trans (by rfl), hall.trans (by rfl)⟩

/-- One record, a read, two records, a read: a limit of two leaves nothing out, a limit of one does. -/
theorem reads_complete_lobby :
    (∃ answers, readOn (py "lobby") (some 2) [] none
        [[lobbyWrite 3 "one"], [lobbyWrite 7 "two", lobbyWrite 8 "three"]] (.initial 30 120) = .ok answers ∧
      answers.flatten = lobbyRecords.map (Stored.message (py "lobby"))) ∧
    ∃ answers, readOn (py "lobby") (some 1) [] none
        [[lobbyWrite 3 "one"], [lobbyWrite 7 "two", lobbyWrite 8 "three"]] (.initial 30 120) = .ok answers ∧
      answers.flatten ≠ lobbyRecords.map (Stored.message (py "lobby")) := by
  have hserve : (serve ([[lobbyWrite 3 "one"], [lobbyWrite 7 "two", lobbyWrite 8 "three"]].flatten)
      (.initial 30 120)).2 = lobbyState 8 lobbyRecords := serve_three
  have hsnapshots : snapshots (py "lobby") [[lobbyWrite 3 "one"], [lobbyWrite 7 "two", lobbyWrite 8 "three"]]
      (.initial 30 120) = [[lobbyRecord 1 3 "one"], lobbyRecords] := by
    unfold snapshots snapshots snapshots
    rw [serve_one, serve_nil, serve_two_three, serve_nil]
    rfl
  have hlimit : ∀ k < 3, 0 < k → ∀ n ∈ some k, 0 < n ∧ ∃ t, strInt (n : Nat) = .ok t := by
    rintro k hk hpos _ ⟨⟩
    exact ⟨hpos, _, strInt_natCast (by omega)⟩
  have hseq : ∃ t, strInt (serve ([[lobbyWrite 3 "one"], [lobbyWrite 7 "two", lobbyWrite 8 "three"]].flatten)
      (.initial 30 120)).2.nextSeq = .ok t := by
    rw [hserve]
    exact ⟨_, strInt_natCast (by decide)⟩
  obtain ⟨two, htwo, hcomplete⟩ := reads_complete 30 120 validateRoom_lobby (by decide)
    (hlimit 2 (by decide) (by decide)) [] _ hseq
  obtain ⟨one, hone, hincomplete⟩ := reads_complete 30 120 validateRoom_lobby (by decide)
    (hlimit 1 (by decide) (by decide)) [] _ hseq
  rw [hserve, hsnapshots] at hcomplete hincomplete
  refine ⟨⟨two, htwo, hcomplete.mpr ?_⟩, one, hone, fun heq => ?_⟩
  · decide
  · exact absurd (hincomplete.mp heq) (by decide)

end Lobby

end FlopOffice.Integration
