/-
# FlopOffice.Integration.ServerRuns — what the stand-in is: a board that takes signed records once.

`Board` is the purpose of the server, without its tables: a log of records, numbered from 1, in which the
nonces of every author increase in every room. The state of the server represents a board, and a request
leaves the board as it is or adds the record it carries a valid signature for (`doGet_refines`). So after
any run every record is authentic, a write that is sent again is not stored again, and what is stored stays
where it is (`server_runs`).
-/
import FlopOffice.Integration.FakeTechnocore
import FlopOffice.Lib.CounterLog

namespace FlopOffice.Integration

open FlopOffice.Identity FlopOffice.Lib FlopOffice.Python FlopOffice.Technocore

/-! ## The board -/

/-- A record, and the room it is in. -/
structure Post where
  room : PyStr
  record : Stored

/-- Who counts: a did, in a room. -/
def Post.author (p : Post) : PyStr × PyStr := (p.record.sender, p.room)

def Post.nonce (p : Post) : Int := p.record.nonce

/-- A log of records that were signed. -/
structure Board where
  log : List Post
  numbered : (log.map fun p => p.record.seq) = List.range' 1 log.length
  ascending : Ascending Post.author Post.nonce log
  positive : ∀ p ∈ log, 0 < p.nonce
  written : ∀ p ∈ log, ∃ payload, signedBytes p.room p.nonce p.record.text = .ok payload

namespace Board

def empty : Board := ⟨[], rfl, .nil, nofun, nofun⟩

/-- The records of a room. -/
def room (b : Board) (name : PyStr) : List Stored := (b.log.filter fun p => p.room = name).map Post.record

/-- What may be added: the next number, a nonce that is new for its author, bytes to sign. -/
structure Takes (b : Board) (p : Post) : Prop where
  seq : p.record.seq = b.log.length + 1
  positive : 0 < p.nonce
  fresh : Fresh Post.author Post.nonce b.log p
  written : ∃ payload, signedBytes p.room p.nonce p.record.text = .ok payload

/-- The board with one more record. -/
def post (b : Board) (p : Post) (h : b.Takes p) : Board where
  log := b.log ++ [p]
  numbered := by
    rw [List.map_append, b.numbered, List.length_append, List.length_singleton, List.range'_concat,
      List.map_singleton, h.seq, Nat.one_mul, Nat.add_comm]
  ascending := ascending_append_iff.mpr ⟨b.ascending, h.fresh⟩
  positive q hq := by
    rcases List.mem_append.mp hq with hq | hq
    · exact b.positive q hq
    · exact List.mem_singleton.mp hq ▸ h.positive
  written q hq := by
    rcases List.mem_append.mp hq with hq | hq
    · exact b.written q hq
    · exact List.mem_singleton.mp hq ▸ h.written

theorem room_post {b : Board} {p : Post} (h : b.Takes p) (name : PyStr) :
    (b.post p h).room name = if p.room = name then b.room name ++ [p.record] else b.room name := by
  show ((b.log ++ [p]).filter _).map _ = _
  rw [List.filter_append, List.map_append]
  split
  · rename_i hname
    simp [room, hname]
  · rename_i hname
    simp [room, hname]

/-- The numbers of a room increase. -/
theorem room_pairwise (b : Board) (name : PyStr) :
    (b.room name).Pairwise fun m m' => m.seq < m'.seq := by
  have hall : (b.log.map fun p => p.record.seq).Pairwise fun i j => i < j := by
    rw [b.numbered]
    exact List.pairwise_lt_range'
  exact List.pairwise_map.mpr (List.Pairwise.filter _ (List.pairwise_map.mp hall))

/-- Numbers are at most the length of the log. -/
theorem seq_le {b : Board} {p : Post} (h : p ∈ b.log) : 1 ≤ p.record.seq ∧ p.record.seq ≤ b.log.length := by
  have hmem : p.record.seq ∈ List.range' 1 b.log.length := b.numbered ▸ List.mem_map_of_mem h
  have := List.mem_range'_1.mp hmem
  omega

/-- A longer log has longer rooms. -/
theorem room_prefix {b b' : Board} (h : b.log <+: b'.log) (name : PyStr) : b.room name <+: b'.room name := by
  obtain ⟨more, hmore⟩ := h
  refine ⟨(more.filter fun p => p.room = name).map Post.record, ?_⟩
  unfold room
  rw [← hmore, List.filter_append, List.map_append]

end Board

/-! ## The state represents a board -/

/-- The tables of the server, as functions of the log. -/
structure Represents (b : Board) (s : FakeTechnocoreState) : Prop where
  nextSeq : s.nextSeq = b.log.length + 1
  room : ∀ name, s.room name = b.room name
  names : ∀ name, name ∈ s.rooms.map Prod.fst ↔ ∃ p ∈ b.log, p.room = name
  nodup : (s.rooms.map Prod.fst).Nodup
  lastNonce : ∀ did room, s.lastNonce did room = mark Post.author Post.nonce 0 b.log (did, room)

theorem represents_initial (writes reads : Int) :
    Represents .empty (FakeTechnocoreState.initial writes reads) where
  nextSeq := rfl
  room _ := rfl
  names _ := by simp [FakeTechnocoreState.initial, Board.empty]
  nodup := List.nodup_nil
  lastNonce _ _ := rfl

/-- The times of the rate limit are not part of the board. -/
theorem Represents.times {b : Board} {s : FakeTechnocoreState} (h : Represents b s) (times : List ℚ) :
    Represents b { s with writeTimes := times } := ⟨h.nextSeq, h.room, h.names, h.nodup, h.lastNonce⟩

/-- **A write that is stored** is a record more on the board. -/
theorem Represents.store {b : Board} {s : FakeTechnocoreState} (h : Represents b s) {p : Post}
    (hp : b.Takes p) :
    Represents (b.post p hp) (s.store p.room p.record.sender p.nonce p.record.text p.record.ts) := by
  have hrecord : (⟨s.nextSeq, p.record.ts, p.record.sender, p.nonce, p.record.text⟩ : Stored) = p.record := by
    rw [h.nextSeq, ← hp.seq]
    rfl
  refine ⟨?_, fun name => ?_, fun name => ?_, ?_, fun did room => ?_⟩
  · show s.nextSeq + 1 = (b.log ++ [p]).length + 1
    rw [h.nextSeq, List.length_append, List.length_singleton]
  · rw [Board.room_post, ← h.room name]
    show (dictGet (dictSet p.room _ s.rooms) name).getD [] = _
    rw [dictGet_dictSet, hrecord]
    split
    · rename_i hname
      rw [hname]
      rfl
    · rfl
  · show name ∈ (dictSet p.room _ s.rooms).map Prod.fst ↔ ∃ q ∈ b.log ++ [p], q.room = name
    have hold := h.names name
    rw [keys_dictSet]
    split
    · rename_i hmem
      rw [hold]
      constructor
      · rintro ⟨q, hq, rfl⟩
        exact ⟨q, List.mem_append_left _ hq, rfl⟩
      · rintro ⟨q, hq, rfl⟩
        rcases List.mem_append.mp hq with hq | hq
        · exact ⟨q, hq, rfl⟩
        · rw [List.mem_singleton.mp hq]
          exact (h.names _).mp hmem
    · rw [List.mem_append, hold, List.mem_singleton]
      constructor
      · rintro (⟨q, hq, rfl⟩ | rfl)
        · exact ⟨q, List.mem_append_left _ hq, rfl⟩
        · exact ⟨p, by simp, rfl⟩
      · rintro ⟨q, hq, rfl⟩
        rcases List.mem_append.mp hq with hq | hq
        · exact Or.inl ⟨q, hq, rfl⟩
        · exact Or.inr (by rw [List.mem_singleton.mp hq])
  · show ((dictSet p.room _ s.rooms).map Prod.fst).Nodup
    rw [keys_dictSet]
    split
    · exact h.nodup
    · rename_i hno
      refine List.nodup_append.mpr ⟨h.nodup, List.nodup_singleton _, ?_⟩
      rintro x hx y hy rfl
      exact hno (List.mem_singleton.mp hy ▸ hx)
  · show (dictGet (dictSet (p.record.sender, p.room) p.nonce s.nonces) (did, room)).getD 0 =
      mark _ _ 0 (b.log ++ [p]) _
    rw [dictGet_dictSet, mark_append, ← h.lastNonce]
    show (if p.author = (did, room) then some p.nonce else _).getD 0 = _
    split
    · rfl
    · rfl

/-- The last nonce the server has is what decides whether a write is new. -/
theorem Represents.fresh_iff {b : Board} {s : FakeTechnocoreState} (h : Represents b s) {p : Post}
    (hpos : 0 < p.nonce) :
    Fresh Post.author Post.nonce b.log p ↔ s.lastNonce p.record.sender p.room < p.nonce := by
  rw [h.lastNonce]
  exact fresh_iff_mark b.ascending hpos

theorem Represents.lastNonce_nonneg {b : Board} {s : FakeTechnocoreState} (h : Represents b s)
    (did room : PyStr) : 0 ≤ s.lastNonce did room := by
  rw [h.lastNonce]
  exact bottom_le_mark (fun p hp => (b.positive p hp).le) _

/-! ## Requests -/

/-- What a client takes for the number of its write: `{"ok": true, "seq": n}`. -/
def confirmed (reply : Reply) : Option Int :=
  match reply with
  | .error _ => none
  | .ok response => match response.json with
    | .error _ => none
    | .ok v => match v.get (py "ok"), v.get (py "seq") with
      | .leaf (.bool true), .leaf (.int n) => some n
      | _, _ => none

/-- A reply that says nothing of a stored record. -/
theorem confirmed_sendJson {code : Fin 1000} {payload : PyVal} (h : payload.get (py "ok") = .leaf .none) :
    confirmed (sendJson code payload) = none := by
  unfold sendJson
  split
  · show (match payload.get (py "ok"), payload.get (py "seq") with
      | .leaf (.bool true), .leaf (.int n) => some n
      | _, _ => none) = none
    rw [h]
  · rfl

theorem confirmed_eq_some {seq : Nat} {n : Int} (h : confirmed (sendJson 200 (storedJson seq)) = some n) :
    n = seq := by
  unfold sendJson at h
  split at h
  · exact (Option.some.inj h).symm
  · cases h

section Requests

variable [PyRuntime] [PyBuiltins] [Ed25519]

/-- The request asks for the record to be stored, and has a signature that is valid for it. -/
def Carries (r : Request) (p : Post) : Prop :=
  ∃ sig nonceText text more payload,
    r.parts = py "r" :: p.room :: py "say-signed" :: p.record.sender :: sig :: nonceText :: text :: more ∧
    parseInt nonceText = .ok p.nonce ∧
    p.record.text = singleLineSweep ([cp '/'].intercalate (text :: more)) ∧
    signedBytes p.room p.nonce p.record.text = .ok payload ∧
    verify p.record.sender sig payload = .ok true

/-- The outcomes of a write: nothing but to count for the rate limit, or it is stored. -/
inductive SayOutcome (room did sig nonceText text ts : PyStr) (s : FakeTechnocoreState) :
    Reply × FakeTechnocoreState → Prop
  | quiet {reply times} : confirmed reply = none →
      SayOutcome room did sig nonceText text ts s (reply, { s with writeTimes := times })
  | stored {nonce payload times} : parseInt nonceText = .ok nonce →
      signedBytes room nonce (singleLineSweep text) = .ok payload → verify did sig payload = .ok true →
      s.lastNonce did room < nonce → SayOutcome room did sig nonceText text ts s
        (sendJson 200 (storedJson s.nextSeq),
          { s with writeTimes := times }.store room did nonce (singleLineSweep text) ts)

omit [PyRuntime] [PyBuiltins] [Ed25519] in
theorem rateLimited_eq (s : FakeTechnocoreState) (now : ℚ) :
    ∃ limited times, s.rateLimited now = (limited, { s with writeTimes := times }) := by
  unfold FakeTechnocoreState.rateLimited
  dsimp only
  split
  · exact ⟨_, _, rfl⟩
  · exact ⟨_, _, rfl⟩

theorem saySigned_outcome (room did sig nonceText text ts : PyStr) (now : ℚ) (s : FakeTechnocoreState) :
    SayOutcome room did sig nonceText text ts s (saySigned room did sig nonceText text now ts s) := by
  obtain ⟨limited, times, hlimit⟩ := rateLimited_eq s now
  unfold saySigned
  rw [hlimit]
  dsimp only
  split
  · exact .quiet (confirmed_sendJson rfl)
  split
  · exact .quiet (confirmed_sendJson rfl)
  cases hnonce : parseInt nonceText with
  | error e => exact .quiet rfl
  | ok nonce =>
    dsimp only
    rw [serverSweep_eq]
    cases hpayload : signedBytes room nonce (singleLineSweep text) with
    | error e => exact .quiet rfl
    | ok payload =>
      obtain ⟨b, hb, hread⟩ := accepts_eq_ok did sig payload
      dsimp only
      rw [hb]
      cases b with
      | false => exact .quiet (confirmed_sendJson rfl)
      | true =>
        dsimp only
        split
        · refine .quiet ?_
          cases strInt nonce with
          | error e => rfl
          | ok a =>
            cases strInt (({ s with writeTimes := times } : FakeTechnocoreState).lastNonce did room) with
            | error e => rfl
            | ok b => exact confirmed_sendJson rfl
        · rename_i hlast
          exact .stored hnonce hpayload (verify_eq_true.mpr (hread.mp rfl)) (not_le.mp hlast)

/-- **What a request does**: it leaves the board alone and confirms nothing, or it adds the record it
carries, and confirms its number. -/
theorem doGet_refines {b : Board} {s : FakeTechnocoreState} (h : Represents b s) (r : Request) (now : ℚ)
    (ts : PyStr) :
    (Represents b (doGet r now ts s).2 ∧ confirmed (doGet r now ts s).1 = none) ∨
    ∃ (p : Post) (hp : b.Takes p), Carries r p ∧ Represents (b.post p hp) (doGet r now ts s).2 ∧
      (doGet r now ts s).1 = sendJson 200 (storedJson p.record.seq) := by
  have hread : ∀ {reply : Reply}, confirmed reply = none →
      (Represents b (reply, s).2 ∧ confirmed (reply, s).1 = none) ∨
      ∃ (p : Post) (hp : b.Takes p), Carries r p ∧ Represents (b.post p hp) (reply, s).2 ∧
        (reply, s).1 = sendJson 200 (storedJson p.record.seq) := fun hr => Or.inl ⟨h, hr⟩
  unfold doGet
  split
  · exact hread (confirmed_sendJson rfl)
  split
  · exact hread (confirmed_sendJson rfl)
  dsimp only
  split
  · rename_i root room verb did sig nonceText text more hparts
    split
    · rename_i hverb
      obtain ⟨rfl, rfl⟩ := hverb
      have hout := saySigned_outcome room did sig nonceText ([cp '/'].intercalate (text :: more)) ts now s
      generalize saySigned room did sig nonceText ([cp '/'].intercalate (text :: more)) now ts s = out at hout
      cases hout with
      | quiet hreply => exact Or.inl ⟨h.times _, hreply⟩
      | @stored nonce payload times hnonce hpayload hverify hlast =>
        have hpos : 0 < nonce := lt_of_le_of_lt (h.lastNonce_nonneg did room) hlast
        let p : Post := ⟨room, s.nextSeq, ts, did, nonce, singleLineSweep ([cp '/'].intercalate (text :: more))⟩
        have hp : b.Takes p := ⟨h.nextSeq, hpos, (h.fresh_iff (p := p) hpos).mpr hlast, payload, hpayload⟩
        exact Or.inr ⟨p, hp, ⟨sig, nonceText, text, more, payload, hparts, hnonce, rfl, hpayload, hverify⟩,
          (h.times times).store hp, rfl⟩
    · exact hread (confirmed_sendJson rfl)
  · split
    · refine hread ?_
      cases selectMessages (r.param (py "since")) (r.param (py "limit")) (s.room _) with
      | error e => rfl
      | ok messages => exact confirmed_sendJson rfl
    · exact hread (confirmed_sendJson rfl)
  · exact hread (confirmed_sendJson rfl)

/-! ## Runs -/

omit [PyRuntime] [PyBuiltins] [Ed25519] in
/-- A request, when it is served, and the time stamp its record would get. -/
structure Arrival where
  request : Request
  now : ℚ
  ts : PyStr

/-- The requests one after the other: the lock of the state lets one in at a time. -/
def serve : List Arrival → FakeTechnocoreState → List Reply × FakeTechnocoreState
  | [], s => ([], s)
  | a :: later, s =>
    let (reply, s) := doGet a.request a.now a.ts s
    let (replies, s) := serve later s
    (reply :: replies, s)

theorem serve_append (arrivals more : List Arrival) (s : FakeTechnocoreState) :
    (serve (arrivals ++ more) s).2 = (serve more (serve arrivals s).2).2 := by
  induction arrivals generalizing s with
  | nil => rfl
  | cons a later ih =>
    simp only [List.cons_append, serve]
    exact ih _

/-- The number a reply confirms is that of a record of the log, which the request carries. -/
def Confirms (log : List Post) (a : Arrival) (reply : Reply) : Prop :=
  ∀ n, confirmed reply = some n → ∃ p ∈ log, (p.record.seq : Int) = n ∧ Carries a.request p

/-- **A run**: the log grows by records that the requests carry, and what is confirmed is in it. -/
theorem serve_refines {b : Board} {s : FakeTechnocoreState} (h : Represents b s) (arrivals : List Arrival) :
    ∃ b' : Board, Represents b' (serve arrivals s).2 ∧ b.log <+: b'.log ∧
      (∀ p ∈ b'.log, p ∈ b.log ∨ ∃ a ∈ arrivals, Carries a.request p) ∧
      List.Forall₂ (Confirms b'.log) arrivals (serve arrivals s).1 := by
  induction arrivals generalizing b s with
  | nil => exact ⟨b, h, List.prefix_rfl, fun p hp => Or.inl hp, .nil⟩
  | cons a later ih =>
    simp only [serve]
    rcases doGet_refines h a.request a.now a.ts with ⟨hsame, hquiet⟩ | ⟨p, hp, hcarries, hmore, hreply⟩
    · obtain ⟨b', hb', hpre, hmem, hall⟩ := ih hsame
      refine ⟨b', hb', hpre, fun q hq => ?_, .cons (fun n hn => ?_) hall⟩
      · exact (hmem q hq).imp_right fun ⟨x, hx, hc⟩ => ⟨x, List.mem_cons_of_mem _ hx, hc⟩
      · rw [hquiet] at hn
        cases hn
    · obtain ⟨b', hb', hpre, hmem, hall⟩ := ih hmore
      have hpost : p ∈ b'.log := hpre.subset (List.mem_append_right _ (List.mem_singleton_self p))
      refine ⟨b', hb', (List.prefix_append _ _).trans hpre, fun q hq => ?_, .cons (fun n hn => ?_) hall⟩
      · rcases hmem q hq with hq | ⟨x, hx, hc⟩
        · rcases List.mem_append.mp hq with hq | hq
          · exact Or.inl hq
          · exact Or.inr ⟨a, List.mem_cons_self, List.mem_singleton.mp hq ▸ hcarries⟩
        · exact Or.inr ⟨x, List.mem_cons_of_mem _ hx, hc⟩
      · rw [hreply] at hn
        exact ⟨p, hpost, (confirmed_eq_some hn).symm, hcarries⟩

/-! ### What a room shows -/

omit [PyRuntime] [PyBuiltins] [Ed25519] in
theorem Represents.mem_room_iff {b : Board} {s : FakeTechnocoreState} (h : Represents b s) {name : PyStr}
    {m : Stored} : m ∈ s.room name ↔ (⟨name, m⟩ : Post) ∈ b.log := by
  rw [h.room]
  unfold Board.room
  rw [List.mem_map]
  constructor
  · rintro ⟨p, hp, rfl⟩
    rw [List.mem_filter, decide_eq_true_eq] at hp
    rw [← hp.2]
    exact hp.1
  · intro hm
    exact ⟨⟨name, m⟩, List.mem_filter.mpr ⟨hm, decide_eq_true rfl⟩, rfl⟩

omit [PyRuntime] [PyBuiltins] [Ed25519] in
/-- In a room the numbers increase, and so do the nonces of each sender. -/
theorem Board.room_ordered (b : Board) (name : PyStr) :
    (b.room name).Pairwise fun m m' => m.seq < m'.seq ∧ (m.sender = m'.sender → m.nonce < m'.nonce) := by
  refine (b.room_pairwise name).and (List.pairwise_map.mpr ?_)
  have hroom : (b.log.filter fun p => p.room = name).Pairwise fun p q =>
      p.author = q.author → p.nonce < q.nonce := List.Pairwise.filter _ b.ascending
  refine hroom.imp_of_mem fun hp hq himp hsender => himp ?_
  rw [List.mem_filter, decide_eq_true_eq] at hp hq
  exact Prod.ext hsender (hp.2.trans hq.2.symm)

omit [PyRuntime] [PyBuiltins] [Ed25519] in
/-- One number, one record. -/
theorem Board.unique {b : Board} {p q : Post} (hp : p ∈ b.log) (hq : q ∈ b.log)
    (h : p.record.seq = q.record.seq) : p = q := by
  have hnodup : (b.log.map fun p => p.record.seq).Nodup := by
    rw [b.numbered]
    exact List.nodup_range'
  exact List.inj_on_of_nodup_map hnodup hp hq h

/-- **Every run of the stand-in.** From an empty server, after any requests: what is stored later leaves
what is stored now where it is; every record is authentic; a number is one record; in a room the numbers
increase and so do the nonces of every sender, so that no write is stored twice; and a number that is
confirmed is that of a record which the confirmed request carries. -/
theorem server_runs (writes reads : Int) (arrivals more : List Arrival) :
    let now := serve arrivals (.initial writes reads)
    let later := serve more now.2
    (∀ name, now.2.room name <+: later.2.room name) ∧
    (∀ name, ∀ m ∈ now.2.room name, ∃ a ∈ arrivals, Carries a.request ⟨name, m⟩) ∧
    (∀ name, ∀ m ∈ now.2.room name, ∀ name', ∀ m' ∈ now.2.room name', m.seq = m'.seq →
      name = name' ∧ m = m') ∧
    (∀ name, (now.2.room name).Pairwise fun m m' =>
      m.seq < m'.seq ∧ (m.sender = m'.sender → m.nonce < m'.nonce)) ∧
    List.Forall₂ (fun a reply => ∀ n, confirmed reply = some n → ∃ name, ∃ m ∈ now.2.room name,
      (m.seq : Int) = n ∧ Carries a.request ⟨name, m⟩) arrivals now.1 := by
  obtain ⟨b, hb, -, hmem, hall⟩ := serve_refines (represents_initial writes reads) arrivals
  obtain ⟨b', hb', hpre, -, -⟩ := serve_refines hb more
  refine ⟨fun name => ?_, fun name m hm => ?_, fun name m hm name' m' hm' hseq => ?_, fun name => ?_, ?_⟩
  · rw [hb.room, hb'.room]
    exact Board.room_prefix hpre name
  · exact (hmem _ (hb.mem_room_iff.mp hm)).resolve_left List.not_mem_nil
  · have hsame := Board.unique (hb.mem_room_iff.mp hm) (hb.mem_room_iff.mp hm') hseq
    exact ⟨congrArg Post.room hsame, congrArg Post.record hsame⟩
  · rw [hb.room]
    exact b.room_ordered name
  · refine hall.imp fun a reply hconfirm n hn => ?_
    obtain ⟨p, hp, hseq, hcarries⟩ := hconfirm n hn
    exact ⟨p.room, p.record, hb.mem_room_iff.mpr hp, hseq, hcarries⟩

/-! ## Replays -/

omit [PyRuntime] [PyBuiltins] [Ed25519] in
/-- What the bytes of a write say: the room, the nonce and the text, unless a room has the separator in its
name. -/
theorem signedBytes_inj {room name text text' : PyStr} {k k' : Int} {payload : Bytes} (hroom : cp '|' ∉ room)
    (hk : 0 ≤ k) (hk' : 0 ≤ k') (h : signedBytes room k text = .ok payload)
    (h' : signedBytes name k' text' = .ok payload) :
    (name = room ∧ k' = k ∧ text' = text) ∨ room ++ [cp '|'] <+: name := by
  obtain ⟨n, rfl⟩ := Int.eq_ofNat_of_zero_le hk
  obtain ⟨n', rfl⟩ := Int.eq_ofNat_of_zero_le hk'
  obtain ⟨digits, hdigits, hutf⟩ := bind_eq_ok.mp h
  obtain ⟨digits', hdigits', hutf'⟩ := bind_eq_ok.mp h'
  have hnat : ∀ {n : Nat} {t : PyStr}, strInt n = .ok t → t = decimalDigits n := by
    intro n t ht
    rw [strInt_eq_ok ht, if_neg (by omega)]
    rfl
  rw [hnat hdigits] at hutf
  rw [hnat hdigits'] at hutf'
  have heq : messageText room n text = messageText name n' text' := utf8_injective hutf hutf'
  by_cases hname : cp '|' ∈ name
  · obtain ⟨front, rest, rfl, hfree⟩ := List.eq_append_cons_of_mem hname
    right
    unfold messageText at heq
    rw [List.append_assoc, List.cons_append] at heq
    obtain ⟨rfl, -⟩ := separator_inj hroom hfree heq
    exact ⟨rest, by simp⟩
  · obtain ⟨rfl, rfl, rfl⟩ := messageText_inj hroom hname heq
    exact Or.inl ⟨rfl, rfl, rfl⟩

/-- **A signature is worth one record.** Let a signature be valid, for its did, for one payload only, that
of a room, a nonce and a text. In a run whose requests have no other signature for this did, however often
and in whatever shape it is sent again, the room gets at most one record of the did, with this nonce and
this text, and no room gets another, but one whose name goes on after a separator. -/
theorem replay_once {did sig room text : PyStr} {k : Int} {payload : Bytes} (hroom : cp '|' ∉ room)
    (hk : 0 ≤ k) (hbytes : signedBytes room k text = .ok payload)
    (hone : ∀ p, verify did sig p = .ok true → p = payload) (writes reads : Int) (arrivals : List Arrival)
    (honly : ∀ a ∈ arrivals, a.request.parts[3]? = some did → a.request.parts[4]? = some sig) :
    let s := (serve arrivals (.initial writes reads)).2
    (∀ name, ∀ m ∈ s.room name, m.sender = did →
      (name = room ∧ m.nonce = k ∧ m.text = text) ∨ room ++ [cp '|'] <+: name) ∧
    ((s.room room).filter fun m => m.sender = did).length ≤ 1 := by
  obtain ⟨b, hb, -, hmem, -⟩ := serve_refines (represents_initial writes reads) arrivals
  have hsame : ∀ name, ∀ m ∈ (serve arrivals (.initial writes reads)).2.room name, m.sender = did →
      (name = room ∧ m.nonce = k ∧ m.text = text) ∨ room ++ [cp '|'] <+: name := by
    intro name m hm hsender
    have hpost := hb.mem_room_iff.mp hm
    have hpos : 0 < m.nonce := b.positive _ hpost
    rcases hmem _ hpost with hnil | ⟨a, ha, sig', nonceText, text', more, payload', hparts, -, -, hp, hverify⟩
    · exact absurd hnil List.not_mem_nil
    · have hsig := honly a ha (by rw [hparts, ← hsender]; rfl)
      rw [hparts] at hsig
      obtain rfl : sig' = sig := Option.some.inj hsig
      have hpayload : payload' = payload := hone _ (hsender ▸ hverify)
      rw [hpayload] at hp
      exact signedBytes_inj hroom hk hpos.le hbytes hp
  refine ⟨hsame, ?_⟩
  -- two records of the did in the room would have two nonces
  have hordered := b.room_ordered room
  rw [← hb.room] at hordered
  have hfiltered := hordered.filter fun m => decide (m.sender = did)
  have hall : ∀ m ∈ ((serve arrivals (.initial writes reads)).2.room room).filter fun m => m.sender = did,
      m.sender = did ∧ m.nonce = k := by
    intro m hm
    rw [List.mem_filter, decide_eq_true_eq] at hm
    rcases hsame room m hm.1 hm.2 with ⟨-, hnonce, -⟩ | hlong
    · exact ⟨hm.2, hnonce⟩
    · have := hlong.length_le
      rw [List.length_append, List.length_singleton] at this
      omega
  generalize ((serve arrivals (.initial writes reads)).2.room room).filter
    (fun m => decide (m.sender = did)) = own at hall hfiltered ⊢
  cases own with
  | nil => exact Nat.zero_le _
  | cons m rest =>
    cases rest with
    | nil => exact Nat.le_refl _
    | cons m' rest =>
      have hm := hall m List.mem_cons_self
      have hm' := hall m' (List.mem_cons_of_mem _ List.mem_cons_self)
      have hlt := (List.rel_of_pairwise_cons hfiltered List.mem_cons_self).2 (hm.1.trans hm'.1.symm)
      rw [hm.2, hm'.2] at hlt
      exact absurd hlt (lt_irrefl _)

end Requests

section Lobby

attribute [local instance] asciiRuntime asciiBuiltins

/-- The write of `hello`, as it is sent. -/
def lobbyArrival : Arrival where
  request := ⟨py "/r/lobby/say-signed/" ++ (lobbyMessage "hello").did ++ py "/" ++
    (lobbyMessage "hello").signature ++ py "/5/hello", []⟩
  now := 0
  ts := py "now"

/-- It is sent twice. -/
theorem replay_once_lobby :
    let := acceptOnly (lobbyMessage "hello").payload
    (((serve [lobbyArrival, lobbyArrival] (.initial 30 120)).2.room (py "lobby")).filter fun m =>
      m.sender = (lobbyMessage "hello").did).length ≤ 1 := by
  intro _
  have hparts : lobbyArrival.request.parts[4]? = some (lobbyMessage "hello").signature := by decide
  have hbytes : signedBytes (py "lobby") 5 (py "hello") = .ok (lobbyMessage "hello").payload := by decide
  refine (replay_once (by decide) (by decide) hbytes (fun p hp => (verifiesExactly_lobby "hello" p).mp hp)
    30 120 [lobbyArrival, lobbyArrival] ?_).2
  intro a ha _
  have hsame : a = lobbyArrival := by simpa using ha
  rw [hsame]
  exact hparts

end Lobby

end FlopOffice.Integration
