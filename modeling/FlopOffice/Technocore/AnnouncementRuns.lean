/-
# FlopOffice.Technocore.AnnouncementRuns — preparations and publications of any number of processes.

Every process runs one call over a connection of its own. Its own operations take one step each; an append
or a reservation is a transaction of `Lib.Transaction`, which other processes' statements and transactions
may precede and follow, and which may be refused, rolled back or fail at its commit. A process may be cut
anywhere; what it left open in the database is rolled back then.

The invariant (`Sound`) keeps, for every process, the token it holds: no two processes hold the same, no
token that is held was signed, and every token was handed out by a reservation that has been committed.
`announcements_sign_once` reads the guarantees off it.
-/
import FlopOffice.Technocore.GateRuns
import FlopOffice.Technocore.NonceToken

namespace FlopOffice.Technocore

open FlopOffice.Identity FlopOffice.Lib FlopOffice.Proof FlopOffice.Python FlopOffice.Storage

/-! ## Processes -/

/-- A call of one of the two. -/
inductive AnnouncementCall
  | prepare (capability : CapabilitySigner) (nonce : Option PyInt) (room text : PyStr)
  | publish (capability : CapabilitySigner) (client : TechnocoreClient) (room messageSha256 : PyStr)
      (confirm : Bool)

/-- The nonce a call is given. -/
def AnnouncementCall.explicit : AnnouncementCall → Option PyInt
  | .prepare _ nonce _ _ => nonce
  | .publish .. => none

/-- A transaction of a call. -/
inductive DbCall
  | append (call : AppendCall)
  | reserve (agentDid scope : PyStr) (floor : Int)

inductive DbAnswer
  | record (r : LedgerRecord)
  | nonce (n : Int)

/-- The transaction an operation asks for; the random bits and the time of an append are open. -/
def Op.Asks : Op → DbCall → Prop
  | .append activity, .append call => call.activity = activity
  | .reserve agentDid scope floor, k => k = .reserve agentDid scope floor
  | _, _ => False

/-- An operation that is no transaction. -/
def Op.Local : Op → Prop
  | .append _ | .reserve .. => False
  | _ => True

/-- What the answer of a transaction is to the operation that asked for it. -/
def Op.Gets : (op : Op) → DbAnswer → Except Exc (Ans op) → Prop
  | .append _, .record record, r => r = .ok record
  | .reserve .., .nonce n, r => r = .ok n
  | _, _, _ => False

/-- A database that only this step looks at. -/
def untouched : Mode := ⟨Eq, False⟩

section System

variable [PyRuntime] [PyBuiltins]

def DbCall.prog : DbCall → Except Exc (Block Database Exc DbAnswer)
  | .append call =>
    match Proof.append call with
    | .ok b => .ok (b.bind fun record => .ret (.record record))
    | .error e => .error e
  | .reserve agentDid scope floor =>
    match Identity.reserve agentDid scope floor with
    | .ok b => .ok (b.bind fun reservation => .ret (.nonce reservation.nonce))
    | .error e => .error e

def AnnouncementCall.prog [Ed25519] : AnnouncementCall → Prog Unit
  | .prepare capability nonce room text => do
    let _ ← prepareFirstAnnouncement capability nonce room text
    pure ()
  | .publish capability client room messageSha256 confirm => do
    let _ ← publishFirstAnnouncementOnce capability client room messageSha256 confirm
    pure ()

/-- A call in progress: what it has of the world beside the database, and what is left of its program. -/
structure Process where
  id : Nat
  call : AnnouncementCall
  world : World
  rest : Prog Unit

/-- The database with its connections, and the process at each; `next` is the next process id. -/
structure System (Conn : Type) where
  database : Machine Conn Database Exc DbAnswer DbCall
  process : Conn → Option Process
  next : Nat

/-- What happens, in order. -/
inductive Happening (Conn : Type)
  | started (id : Nat) (call : AnnouncementCall)
  /-- A step of a connection in the database. -/
  | database (ev : Lib.Event Conn Exc DbAnswer DbCall)
  /-- The capability is asked to sign. -/
  | signed (id : Nat) (call : AnnouncementCall) (did room : PyStr) (nonce : PyInt)
  | finished (id : Nat) (call : AnnouncementCall) (r : Except Exc Unit)
  | aborted (id : Nat) (call : AnnouncementCall)

variable {Conn : Type}

/-- What an operation of a process shows. -/
def Process.shows (p : Process) : Op → List (Happening Conn)
  | .sign capability room nonce _ => [.signed p.id p.call capability.did.did room nonce]
  | _ => []

/-- What a step of its connection does to a process. A connection whose process is gone only gives its
transaction up. -/
def Moves (p : Option Process) (ev : Lib.Event Conn Exc DbAnswer DbCall) (p' : Option Process) : Prop :=
  match ev with
  | .began _ k => p' = p ∧ ∃ q op next, p = some q ∧ q.rest = .perform op next ∧ op.Asks k
  | .executed _ | .closed _ => p' = p
  | .raised _ k e => (p = none ∧ p' = none) ∨
      ∃ q op next, p = some q ∧ q.rest = .perform op next ∧ op.Asks k ∧
        p' = some { q with rest := next (.error e) }
  | .returned _ k a => ∃ q op next r, p = some q ∧ q.rest = .perform op next ∧ op.Asks k ∧
      op.Gets a r ∧ p' = some { q with rest := next r }

variable [DecidableEq Conn]

/-- The process of a connection is replaced. -/
def System.setProcess (s : System Conn) (c : Conn) (p : Option Process) : System Conn :=
  { s with process := Function.update s.process c p }

/-- One step. -/
inductive System.Step [Ed25519] : System Conn → List (Happening Conn) → System Conn → Prop
  | start {s : System Conn} {c : Conn} {call : AnnouncementCall} {w : World} : s.process c = none →
      s.database.phase c = .idle →
      Step s [.started s.next call]
        { s.setProcess c (some ⟨s.next, call, w, call.prog⟩) with next := s.next + 1 }
  /-- An operation that is no transaction; it sees the committed database. -/
  | local_ {s : System Conn} {c : Conn} {p : Process} {op : Op} {next} {r : Except Exc (Ans op)}
      {w : World} : s.process c = some p → p.rest = .perform op next → op.Local →
      answers untouched { p.world with db := s.database.store } op r w →
      Step s (p.shows op) (s.setProcess c (some { p with world := w, rest := next r }))
  /-- A read of the counter fails. -/
  | readFails {s : System Conn} {c : Conn} {p : Process} {agentDid scope : PyStr} {next} {e : Exc} :
      s.process c = some p → p.rest = .perform (.current agentDid scope) next →
      Step s [] (s.setProcess c (some { p with rest := next (.error e) }))
  /-- A step of the connection in the database. -/
  | database {s : System Conn} {c : Conn} {ev m p'} : Lib.Step DbCall.prog s.database ev m →
      ev.conn = c → Moves (s.process c) ev p' →
      Step s [.database ev] { s.setProcess c p' with database := m }
  | finish {s : System Conn} {c : Conn} {p : Process} {r : Except Exc Unit} : s.process c = some p →
      p.rest = Proc.lift r → Step s [.finished p.id p.call r] (s.setProcess c none)
  /-- The process is cut. -/
  | abort {s : System Conn} {c : Conn} {p : Process} : s.process c = some p →
      Step s [.aborted p.id p.call] (s.setProcess c none)

/-- No process yet, over the database `db`. -/
def System.start (db : Database) : System Conn := ⟨Machine.start db, fun _ => none, 0⟩

/-- A run, and what happened in it. -/
inductive System.Run [Ed25519] (db : Database) : List (Happening Conn) → System Conn → Prop
  | nil : Run db [] (System.start db)
  | snoc {hist s evs s'} : Run db hist s → System.Step s evs s' → Run db (hist ++ evs) s'

/-! ## What a history says -/

/-- The token that a committed reservation hands out. -/
def Happening.issued? : Happening Conn → Option Token
  | .database (.returned _ (.reserve agentDid scope _) (.nonce n)) => some ⟨agentDid, scope, n⟩
  | _ => none

/-- The did, room and nonce of a signature. -/
def Happening.signed? : Happening Conn → Option (PyStr × PyStr × PyInt)
  | .signed _ _ did room nonce => some (did, room, nonce)
  | _ => none

/-- The tokens that have been handed out. -/
def issued (hist : List (Happening Conn)) : List Token := hist.filterMap Happening.issued?

/-- What has been signed. -/
def signatures (hist : List (Happening Conn)) : List (PyStr × PyStr × PyInt) :=
  hist.filterMap Happening.signed?

/-- The signature a token is for. -/
def Token.signature (t : Token) : PyStr × PyStr × PyInt := (t.did, t.room, .int t.nonce)

/-- Nothing that hands out or spends a token. -/
def Happening.Quiet (h : Happening Conn) : Prop := h.issued? = none ∧ h.signed? = none

omit [PyRuntime] [PyBuiltins] [DecidableEq Conn] in
@[simp] theorem issued_append (hist hist' : List (Happening Conn)) :
    issued (hist ++ hist') = issued hist ++ issued hist' := List.filterMap_append

omit [PyRuntime] [PyBuiltins] [DecidableEq Conn] in
@[simp] theorem signatures_append (hist hist' : List (Happening Conn)) :
    signatures (hist ++ hist') = signatures hist ++ signatures hist' := List.filterMap_append

omit [PyRuntime] [PyBuiltins] [DecidableEq Conn] in
theorem quiet_append {hist evs : List (Happening Conn)} (h : ∀ ev ∈ evs, ev.Quiet) :
    issued (hist ++ evs) = issued hist ∧ signatures (hist ++ evs) = signatures hist := by
  have hissued : issued evs = [] := List.filterMap_eq_nil_iff.mpr fun ev hev => (h ev hev).1
  have hsigned : signatures evs = [] := List.filterMap_eq_nil_iff.mpr fun ev hev => (h ev hev).2
  rw [issued_append, signatures_append, hissued, hsigned, List.append_nil, List.append_nil]
  exact ⟨rfl, rfl⟩

/-! ## The accounts of the tokens -/

/-- What the tokens held by the connections have to do with the database and the history. -/
structure Accounts (store : Database) (hist : List (Happening Conn)) (hold : Conn → Hold) : Prop where
  /-- A token that was handed out is committed. -/
  committed : ∀ t ∈ issued hist, t.nonce ≤ counter store t.did t.room
  /-- A signature was paid for. -/
  paid : ∀ x ∈ signatures hist, ∃ t ∈ issued hist, t.signature = x
  once : (signatures hist).Nodup
  /-- A token that is held was handed out and has not been spent. -/
  held : ∀ c t, (hold c).token = some t → t ∈ issued hist ∧ t.signature ∉ signatures hist
  apart : ∀ c d t, (hold c).token = some t → (hold d).token = some t → c = d

section Accounts

variable {store store' : Database} {hist evs : List (Happening Conn)} {hold : Conn → Hold} {c : Conn}

omit [PyRuntime] [PyBuiltins] [DecidableEq Conn] in
theorem Token.signature_injective {t t' : Token} (h : t.signature = t'.signature) : t = t' := by
  cases t
  cases t'
  simpa [Token.signature] using h

omit [PyRuntime] [PyBuiltins] in
/-- A token can be kept or dropped. -/
theorem Accounts.quiet (h : Accounts store hist hold) {x : Hold}
    (hx : ∀ t, x.token = some t → (hold c).token = some t) (hevs : ∀ ev ∈ evs, ev.Quiet)
    (hstore : ∀ did room, counter store did room ≤ counter store' did room) :
    Accounts store' (hist ++ evs) (Function.update hold c x) := by
  obtain ⟨hissued, hsigned⟩ : issued (hist ++ evs) = issued hist ∧
      signatures (hist ++ evs) = signatures hist := quiet_append hevs
  have hkept : ∀ d t, (Function.update hold c x d).token = some t → (hold d).token = some t := by
    intro d t ht
    by_cases hd : d = c
    · subst hd
      rw [Function.update_self] at ht
      exact hx t ht
    · rwa [Function.update_of_ne hd] at ht
  refine ⟨?_, ?_, ?_, ?_, fun d d' t ht ht' => h.apart d d' t (hkept d t ht) (hkept d' t ht')⟩
  · rw [hissued]
    exact fun t ht => (h.committed t ht).trans (hstore t.did t.room)
  · rw [hissued, hsigned]
    exact h.paid
  · rw [hsigned]
    exact h.once
  · rw [hissued, hsigned]
    exact fun d t ht => h.held d t (hkept d t ht)

omit [PyRuntime] [PyBuiltins] in
/-- **A reservation** hands out a token that nobody has or had: its nonce is above all of them. -/
theorem Accounts.issue (h : Accounts store hist hold) {t : Token} {signed : Bool} {ev : Happening Conn}
    (hev : ev.issued? = some t ∧ ev.signed? = none) (hfresh : counter store t.did t.room < t.nonce)
    (hstore : ∀ did room, counter store did room ≤ counter store' did room)
    (hcommit : t.nonce ≤ counter store' t.did t.room) :
    Accounts store' (hist ++ [ev]) (Function.update hold c ⟨some t, signed⟩) := by
  have hissued : issued (hist ++ [ev]) = issued hist ++ [t] := by
    rw [issued_append, issued, issued, List.filterMap_cons_some hev.1, List.filterMap_nil]
  have hsigned : signatures (hist ++ [ev]) = signatures hist := by
    rw [signatures_append, signatures, signatures, List.filterMap_cons_none hev.2, List.filterMap_nil,
      List.append_nil]
  have hnew : t ∉ issued hist := fun hmem => absurd (h.committed t hmem) (by omega)
  have hunspent : t.signature ∉ signatures hist := by
    intro hmem
    obtain ⟨t', ht', heq⟩ := h.paid _ hmem
    exact hnew (Token.signature_injective heq ▸ ht')
  have hcases : ∀ d t', (Function.update hold c ⟨some t, signed⟩ d).token = some t' →
      (d = c ∧ t' = t) ∨ (d ≠ c ∧ (hold d).token = some t') := by
    intro d t' ht'
    by_cases hd : d = c
    · subst hd
      rw [Function.update_self] at ht'
      exact Or.inl ⟨rfl, (Option.some.inj ht').symm⟩
    · rw [Function.update_of_ne hd] at ht'
      exact Or.inr ⟨hd, ht'⟩
  refine ⟨?_, ?_, ?_, ?_, ?_⟩
  · rw [hissued]
    intro t' ht'
    rcases List.mem_append.mp ht' with hold' | hnew'
    · exact (h.committed t' hold').trans (hstore t'.did t'.room)
    · rw [List.mem_singleton.mp hnew']
      exact hcommit
  · rw [hissued, hsigned]
    intro x hx
    obtain ⟨t', ht', heq⟩ := h.paid x hx
    exact ⟨t', List.mem_append_left _ ht', heq⟩
  · rw [hsigned]
    exact h.once
  · rw [hissued, hsigned]
    intro d t' ht'
    rcases hcases d t' ht' with ⟨-, rfl⟩ | ⟨-, hd⟩
    · exact ⟨List.mem_append_right _ (List.mem_singleton.mpr rfl), hunspent⟩
    · exact ⟨List.mem_append_left _ (h.held d t' hd).1, (h.held d t' hd).2⟩
  · intro d d' t' ht ht'
    rcases hcases d t' ht with ⟨rfl, rfl⟩ | ⟨-, hd⟩
    · rcases hcases d' t' ht' with ⟨rfl, -⟩ | ⟨-, hd'⟩
      · rfl
      · exact absurd (h.held d' t' hd').1 hnew
    · rcases hcases d' t' ht' with ⟨rfl, rfl⟩ | ⟨-, hd'⟩
      · exact absurd (h.held d t' hd).1 hnew
      · exact h.apart d d' t' hd hd'

omit [PyRuntime] [PyBuiltins] in
/-- **A signature** spends the token, so that there is no second one for it. -/
theorem Accounts.spend (h : Accounts store hist hold) {t : Token} {ev : Happening Conn}
    (ht : (hold c).token = some t) (hev : ev.issued? = none ∧ ev.signed? = some t.signature) :
    Accounts store (hist ++ [ev]) (Function.update hold c { signed := true }) := by
  have hissued : issued (hist ++ [ev]) = issued hist := by
    rw [issued_append, issued, issued, List.filterMap_cons_none hev.1, List.filterMap_nil,
      List.append_nil]
  have hsigned : signatures (hist ++ [ev]) = signatures hist ++ [t.signature] := by
    rw [signatures_append, signatures, signatures, List.filterMap_cons_some hev.2, List.filterMap_nil]
  obtain ⟨hmine, hunspent⟩ := h.held c t ht
  have hkept : ∀ d t', (Function.update hold c ({ signed := true } : Hold) d).token = some t' →
      d ≠ c ∧ (hold d).token = some t' := by
    intro d t' ht'
    by_cases hd : d = c
    · subst hd
      rw [Function.update_self] at ht'
      cases ht'
    · rw [Function.update_of_ne hd] at ht'
      exact ⟨hd, ht'⟩
  refine ⟨?_, ?_, ?_, ?_, fun d d' t' ht ht' => h.apart d d' t' (hkept d t' ht).2 (hkept d' t' ht').2⟩
  · rw [hissued]
    exact h.committed
  · rw [hissued, hsigned]
    intro x hx
    rcases List.mem_append.mp hx with hold' | hnew
    · exact h.paid x hold'
    · exact ⟨t, hmine, (List.mem_singleton.mp hnew).symm⟩
  · rw [hsigned]
    exact List.nodup_append'.mpr ⟨h.once, List.nodup_singleton _, fun x hx hx' =>
      hunspent (List.mem_singleton.mp hx' ▸ hx)⟩
  · rw [hissued, hsigned]
    intro d t' ht'
    obtain ⟨hd, hold'⟩ := hkept d t' ht'
    obtain ⟨hmem, hnot⟩ := h.held d t' hold'
    refine ⟨hmem, fun hx => ?_⟩
    rcases List.mem_append.mp hx with hx | hx
    · exact hnot hx
    · -- the other connection would hold the token that is spent
      obtain rfl := Token.signature_injective (List.mem_singleton.mp hx)
      exact hd (h.apart d c t' hold' ht)

end Accounts

/-! ## The accounts of the processes -/

/-- A call that returns has signed. -/
def Signs (r : Except Exc Unit) (g : Option Hold) : Prop :=
  r = .ok () → ∃ hold, g = some hold ∧ hold.signed = true

/-- What a process holds is what its program goes on from. -/
structure Process.Carries (hist : List (Happening Conn)) (p : Process) (hold : Hold) : Prop where
  safe : Proc.Safe (claims p.call.explicit) Kept Signs p.rest (some hold)
  /-- It has signed if it says so. -/
  shown : hold.signed = true → ∃ did room nonce, .signed p.id p.call did room nonce ∈ hist

/-- **The invariant** of a run. -/
structure Sound (s : System Conn) (hist : List (Happening Conn)) (hold : Conn → Hold) : Prop where
  coherent : Coherent DbCall.prog s.database
  accounts : Accounts s.database.store hist hold
  carries : ∀ c p, s.process c = some p → p.Carries hist (hold c)

section Steps

variable {s : System Conn} {hist evs : List (Happening Conn)} {hold : Conn → Hold} {c : Conn}

omit [PyRuntime] [PyBuiltins] [DecidableEq Conn] in
theorem Process.Carries.later {p : Process} {x : Hold} (h : p.Carries hist x)
    (evs : List (Happening Conn)) : p.Carries (hist ++ evs) x := by
  refine ⟨h.safe, fun hx => ?_⟩
  obtain ⟨did, room, nonce, hmem⟩ := h.shown hx
  exact ⟨did, room, nonce, List.mem_append_left _ hmem⟩

omit [PyRuntime] [PyBuiltins] in
/-- Only the process of one connection moves. -/
theorem carries_update (h : ∀ d p, s.process d = some p → p.Carries hist (hold d)) {p' : Option Process}
    {x : Hold} (hnew : ∀ p, p' = some p → p.Carries (hist ++ evs) x) (d : Conn) (p : Process)
    (hp : Function.update s.process c p' d = some p) :
    p.Carries (hist ++ evs) (Function.update hold c x d) := by
  by_cases hd : d = c
  · subst hd
    rw [Function.update_self] at hp ⊢
    exact hnew p hp
  · rw [Function.update_of_ne hd] at hp ⊢
    exact (h d p hp).later evs

omit [PyRuntime] [PyBuiltins] [DecidableEq Conn] in
/-- One operation of a process. -/
theorem Process.Carries.next {p : Process} {x x' : Hold} (h : p.Carries hist x) {op : Op} {next}
    (hrest : p.rest = .perform op next) {r : Except Exc (Ans op)} {w : World}
    (hclaims : claims p.call.explicit (some x) op r (some x'))
    (hshown : x'.signed = true → x.signed = true ∨
      ∃ did room nonce, .signed p.id p.call did room nonce ∈ evs) :
    Process.Carries (hist ++ evs) { p with world := w, rest := next r } x' := by
  have hsafe := h.safe
  rw [hrest] at hsafe
  refine ⟨hsafe.2 r _ hclaims, fun hx' => ?_⟩
  rcases hshown hx' with hx | ⟨did, room, nonce, hmem⟩
  · exact (h.later evs).shown hx
  · exact ⟨did, room, nonce, List.mem_append_right _ hmem⟩

omit [PyRuntime] [PyBuiltins] [DecidableEq Conn] in
/-- **A process that is about to sign holds the token for it.** -/
theorem Process.Carries.pays {p : Process} {x : Hold} (h : p.Carries hist x)
    {capability : CapabilitySigner} {room text : PyStr} {nonce : PyInt} {next}
    (hrest : p.rest = .perform (.sign capability room nonce text) next)
    (r : Except Exc SignedMessage) : x.Pays p.call.explicit capability.did.did room nonce := by
  have hsafe := h.safe
  rw [hrest] at hsafe
  by_contra hnot
  have hend := hsafe.2 r none ⟨x, rfl, fun hpays => absurd hpays hnot, fun _ => rfl⟩
  exact hend.inv rfl

omit [DecidableEq Conn] in
/-- The program of a call keeps the discipline from its start. -/
theorem AnnouncementCall.prog_safe [Ed25519] (call : AnnouncementCall) :
    Proc.Safe (claims call.explicit) Kept Signs call.prog (some {}) := by
  cases call with
  | prepare capability nonce room text =>
    unfold AnnouncementCall.prog
    dsimp only [AnnouncementCall.explicit]
    rw [Proc.safe_bind]
    refine claims_prepareFirstAnnouncement (fun g e hg => ⟨hg, nofun⟩) fun preparation => ?_
    exact ⟨nofun, fun _ => ⟨_, rfl, rfl⟩⟩
  | publish capability client room sha confirm =>
    unfold AnnouncementCall.prog
    dsimp only [AnnouncementCall.explicit]
    rw [Proc.safe_bind]
    refine claims_publishFirstAnnouncementOnce (fun g e hg => ⟨hg, nofun⟩) fun result => ?_
    exact ⟨nofun, fun _ => ⟨_, rfl, rfl⟩⟩

/-! ### The transactions -/

omit [PyBuiltins] [DecidableEq Conn] in
/-- An append leaves the counters alone. -/
theorem DbCall.prog_append {call : AppendCall} {b : Block Database Exc DbAnswer} {db db' : Database}
    {a : DbAnswer} (hb : (DbCall.append call).prog = .ok b) (hrun : b.run db = .ok (a, db')) :
    (∃ record, a = .record record) ∧ db'.nonces = db.nonces := by
  simp only [DbCall.prog, Proof.append] at hb
  split at hb
  · rename_i blk hblk
    cases hb
    split at hblk
    · cases hblk
      obtain ⟨record, _, happend, hret⟩ := Block.run_bind_eq_ok hrun
      cases hret
      obtain ⟨_, _, _, _, -, -, -, -, -, rfl, -⟩ := appendBlock_run_eq_ok.mp happend
      exact ⟨⟨record, rfl⟩, rfl⟩
    · cases hblk
  · cases hb

omit [PyBuiltins] [DecidableEq Conn] in
/-- **A reservation** hands out a number above the counter, which is the counter from then on. -/
theorem DbCall.prog_reserve {did room : PyStr} {floor : Int} {b : Block Database Exc DbAnswer}
    {db db' : Database} {a : DbAnswer} (hb : (DbCall.reserve did room floor).prog = .ok b)
    (hrun : b.run db = .ok (a, db')) :
    ∃ n, a = .nonce n ∧ counter db did room < n ∧
      ∀ did' room', counter db' did' room' = if did' = did ∧ room' = room then n
        else counter db did' room' := by
  simp only [DbCall.prog] at hb
  split at hb
  · rename_i blk hblk
    cases hb
    obtain rfl := reserve_eq_ok hblk
    obtain ⟨reservation, _, hreserve, hret⟩ := Block.run_bind_eq_ok hrun
    cases hret
    obtain ⟨rfl, hins⟩ := reserveBlock_run hreserve
    refine ⟨_, rfl, by dsimp only; omega, fun did' room' => ?_⟩
    rw [counter, (upsertNonce_eq_ok hins).2]
    split <;> rfl
  · cases hb

/-! ### One step -/

omit [PyBuiltins] in
/-- One connection moves: its process, what it holds, and the database. -/
theorem Sound.moves (h : Sound s hist hold) {m : Machine Conn Database Exc DbAnswer DbCall}
    {p' : Option Process} {x : Hold} {n : Nat} (hm : Coherent DbCall.prog m)
    (haccounts : Accounts m.store (hist ++ evs) (Function.update hold c x))
    (hnew : ∀ p, p' = some p → p.Carries (hist ++ evs) x) :
    Sound { s.setProcess c p' with database := m, next := n } (hist ++ evs)
      (Function.update hold c x) :=
  ⟨hm, haccounts, carries_update h.carries hnew⟩

omit [PyBuiltins] in
/-- An operation that is no transaction. -/
theorem Sound.local_ [Ed25519] (h : Sound s hist hold) {p : Process} {op : Op} {next}
    {r : Except Exc (Ans op)} {w : World} (hp : s.process c = some p)
    (hrest : p.rest = .perform op next) (hop : op.Local) :
    ∃ x, Sound (s.setProcess c (some { p with world := w, rest := next r })) (hist ++ p.shows op)
      (Function.update hold c x) := by
  have hcarries := h.carries c p hp
  have hsilent : claims p.call.explicit (some (hold c)) op r (some (hold c)) → p.shows op =
      ([] : List (Happening Conn)) →
      ∃ x, Sound (s.setProcess c (some { p with world := w, rest := next r })) (hist ++ p.shows op)
        (Function.update hold c x) := by
    intro hclaims hshows
    rw [hshows]
    refine ⟨hold c, h.moves h.coherent ?_ fun q hq => ?_⟩
    · exact h.accounts.quiet (fun _ ht => ht) (List.forall_mem_nil _) fun _ _ => le_rfl
    · cases hq
      exact hcarries.next hrest hclaims Or.inl
  cases op with
  | append | reserve => exact hop.elim
  | environ | acquire | get | newGate | consume | close | utcNow | current => exact hsilent rfl rfl
  | sign capability room nonce text =>
    have hpays := hcarries.pays hrest r
    obtain ⟨n, rfl, htoken, -⟩ := id hpays
    refine ⟨{ signed := true }, h.moves h.coherent ?_ fun q hq => ?_⟩
    · exact h.accounts.spend htoken ⟨rfl, rfl⟩
    · cases hq
      refine hcarries.next hrest ⟨hold c, rfl, fun _ => rfl, fun hnot => absurd hpays hnot⟩
        fun _ => Or.inr ?_
      exact ⟨_, _, _, List.mem_singleton.mpr rfl⟩

omit [PyBuiltins] in
/-- The transaction a process asked for fails. -/
theorem Sound.raised (h : Sound s hist hold) {ev : Lib.Event Conn Exc DbAnswer DbCall}
    {m : Machine Conn Database Exc DbAnswer DbCall} {p' : Option Process} {op : Op} {p : Process} {next}
    {k : DbCall} {e : Exc} (hm : Coherent DbCall.prog m) (hstore : m.store = s.database.store)
    (hquiet : (Happening.database ev).Quiet) (hp : s.process c = some p)
    (hrest : p.rest = .perform op next) (hasks : op.Asks k)
    (hp' : p' = some { p with rest := next (.error e) }) :
    ∃ x, Sound { s.setProcess c p' with database := m } (hist ++ [.database ev])
      (Function.update hold c x) := by
  have hcarries := h.carries c p hp
  have hevs : ∀ ev' ∈ [Happening.database ev], ev'.Quiet := fun ev' hev' =>
    List.mem_singleton.mp hev' ▸ hquiet
  subst hp'
  cases op with
  | environ | acquire | get | newGate | consume | close | utcNow | current | sign => exact hasks.elim
  | append a =>
    refine ⟨hold c, h.moves hm ?_ fun q hq => ?_⟩
    · rw [hstore]
      exact h.accounts.quiet (fun _ ht => ht) hevs fun _ _ => le_rfl
    · cases hq
      exact hcarries.next (w := p.world) hrest rfl Or.inl
  | reserve did room floor =>
    refine ⟨{ hold c with token := none }, h.moves hm ?_ fun q hq => ?_⟩
    · rw [hstore]
      exact h.accounts.quiet (fun _ ht => absurd ht.symm (Option.some_ne_none _)) hevs fun _ _ => le_rfl
    · cases hq
      exact hcarries.next (w := p.world) hrest rfl Or.inl

omit [PyBuiltins] in
/-- The transaction of a process is committed. -/
theorem Sound.returned (h : Sound s hist hold) {m : Machine Conn Database Exc DbAnswer DbCall}
    {p' : Option Process} {op : Op} {p : Process} {next} {k : DbCall} {a : DbAnswer}
    {b : Block Database Exc DbAnswer} {r : Except Exc (Ans op)} (hm : Coherent DbCall.prog m)
    (hb : k.prog = .ok b) (hrun : b.run s.database.store = .ok (a, m.store))
    (hp : s.process c = some p) (hrest : p.rest = .perform op next) (hasks : op.Asks k)
    (hgets : op.Gets a r) (hp' : p' = some { p with rest := next r }) :
    ∃ x, Sound { s.setProcess c p' with database := m } (hist ++ [.database (.returned c k a)])
      (Function.update hold c x) := by
  have hcarries := h.carries c p hp
  subst hp'
  cases op with
  | environ | acquire | get | newGate | consume | close | utcNow | current | sign => exact hasks.elim
  | append activity =>
    cases k with
    | reserve => exact hasks.elim
    | append call =>
      obtain ⟨⟨record, rfl⟩, hnonces⟩ := DbCall.prog_append hb hrun
      have hcounter : ∀ did room, counter m.store did room = counter s.database.store did room := by
        intro did room
        rw [counter, nonceRow?, hnonces]
        rfl
      refine ⟨hold c, h.moves hm ?_ fun q hq => ?_⟩
      · refine h.accounts.quiet (fun _ ht => ht) (fun ev hev => ?_) fun did room =>
          (hcounter did room).ge
        rw [List.mem_singleton.mp hev]
        exact ⟨rfl, rfl⟩
      · cases hq
        exact hcarries.next (w := p.world) hrest rfl Or.inl
  | reserve did room floor =>
    obtain rfl := hasks
    obtain ⟨n, rfl, habove, hcounter⟩ := DbCall.prog_reserve hb hrun
    obtain rfl : r = .ok n := hgets
    refine ⟨⟨some ⟨did, room, n⟩, (hold c).signed⟩, h.moves hm ?_ fun q hq => ?_⟩
    · refine h.accounts.issue ⟨rfl, rfl⟩ habove (fun did' room' => ?_) ?_
      · rw [hcounter]
        split
        · rename_i heq
          rw [heq.1, heq.2]
          exact habove.le
        · exact le_rfl
      · rw [hcounter, if_pos ⟨rfl, rfl⟩]
    · cases hq
      exact hcarries.next (w := p.world) hrest rfl Or.inl

omit [PyBuiltins] in
/-- A step of a connection in the database. -/
theorem Sound.database (h : Sound s hist hold) {ev : Lib.Event Conn Exc DbAnswer DbCall}
    {m : Machine Conn Database Exc DbAnswer DbCall} {p' : Option Process}
    (hstep : Lib.Step DbCall.prog s.database ev m) (hc : ev.conn = c) (hmoves : Moves (s.process c) ev p') :
    ∃ x, Sound { s.setProcess c p' with database := m } (hist ++ [.database ev])
      (Function.update hold c x) := by
  obtain ⟨hm, hcommit⟩ := hstep.coherent h.coherent
  have hstays : ev.returned? = none → (Happening.database ev).Quiet → p' = s.process c →
      ∃ x, Sound { s.setProcess c p' with database := m } (hist ++ [.database ev])
        (Function.update hold c x) := by
    intro hnone hquiet hp'
    refine ⟨hold c, h.moves hm ?_ fun q hq => (h.carries c q (hp' ▸ hq)).later _⟩
    rw [hstep.store_eq hnone]
    refine h.accounts.quiet (fun _ ht => ht) (fun ev' hev' => ?_) fun _ _ => le_rfl
    rw [List.mem_singleton.mp hev']
    exact hquiet
  cases ev with
  | began d k => exact hstays rfl ⟨rfl, rfl⟩ hmoves.1
  | executed d => exact hstays rfl ⟨rfl, rfl⟩ hmoves
  | closed d => exact hstays rfl ⟨rfl, rfl⟩ hmoves
  | raised d k e =>
    rcases hmoves with ⟨hnone, hnone'⟩ | ⟨p, op, next, hp, hrest, hasks, hp'⟩
    · exact hstays rfl ⟨rfl, rfl⟩ (hnone'.trans hnone.symm)
    · exact h.raised hm (hstep.store_eq rfl) ⟨rfl, rfl⟩ hp hrest hasks hp'
  | returned d k a =>
    obtain ⟨p, op, next, r, hp, hrest, hasks, hgets, hp'⟩ := hmoves
    rcases hcommit with ⟨hnone, -⟩ | ⟨k', a', b, heq, hb, hrun⟩
    · cases hnone
    · cases heq
      subst hc
      exact h.returned hm hb hrun hp hrest hasks hgets hp'

/-- **One step** keeps the invariant. -/
theorem Sound.step [Ed25519] {s' : System Conn} (h : Sound s hist hold)
    (hstep : System.Step s evs s') : ∃ hold', Sound s' (hist ++ evs) hold' := by
  have hgone : ∀ {c : Conn} {evs : List (Happening Conn)}, (∀ ev ∈ evs, ev.Quiet) →
      Sound (s.setProcess c none) (hist ++ evs) (Function.update hold c {}) := fun hevs =>
    h.moves h.coherent (h.accounts.quiet (fun _ ht => absurd ht.symm (Option.some_ne_none _)) hevs
      fun _ _ => le_rfl) fun _ hp => absurd hp.symm (Option.some_ne_none _)
  cases hstep with
  | @start c call w hnone hidle =>
    refine ⟨Function.update hold c {}, h.moves h.coherent ?_ fun q hq => ?_⟩
    · refine h.accounts.quiet (fun _ ht => absurd ht.symm (Option.some_ne_none _)) (fun ev hev => ?_)
        fun _ _ => le_rfl
      rw [List.mem_singleton.mp hev]
      exact ⟨rfl, rfl⟩
    · cases hq
      exact ⟨call.prog_safe, fun hx => absurd hx Bool.false_ne_true⟩
  | local_ hp hrest hop hanswers =>
    obtain ⟨x, hx⟩ := h.local_ hp hrest hop
    exact ⟨_, hx⟩
  | @readFails c p did scope next e hp hrest =>
    refine ⟨Function.update hold c (hold c), h.moves h.coherent ?_ fun q hq => ?_⟩
    · exact h.accounts.quiet (fun _ ht => ht) (List.forall_mem_nil _) fun _ _ => le_rfl
    · cases hq
      exact (h.carries c p hp).next (w := p.world) hrest rfl Or.inl
  | database hdb hc hmoves =>
    obtain ⟨x, hx⟩ := h.database hdb hc hmoves
    exact ⟨_, hx⟩
  | finish hp hrest =>
    refine ⟨_, hgone fun ev hev => ?_⟩
    rw [List.mem_singleton.mp hev]
    exact ⟨rfl, rfl⟩
  | abort hp =>
    refine ⟨_, hgone fun ev hev => ?_⟩
    rw [List.mem_singleton.mp hev]
    exact ⟨rfl, rfl⟩

end Steps

/-! ## Every run -/

section Runs

variable [Ed25519] {db : Database} {s : System Conn} {hist : List (Happening Conn)}

/-- **The invariant holds in every run.** -/
theorem System.Run.sound (h : System.Run db hist s) : ∃ hold, Sound s hist hold := by
  induction h with
  | nil =>
    have hempty : ∀ t, ({} : Hold).token ≠ some t := fun t ht => Option.some_ne_none t ht.symm
    refine ⟨fun _ => {}, Coherent.start _ _, ⟨List.forall_mem_nil _, List.forall_mem_nil _,
      List.nodup_nil, fun _ t ht => absurd ht (hempty t), fun _ _ t ht => absurd ht (hempty t)⟩, ?_⟩
    exact fun _ _ hp => absurd hp.symm (Option.some_ne_none _)
  | snoc _ hstep ih =>
    obtain ⟨hold, hsound⟩ := ih
    exact hsound.step hstep

/-- One step shows one thing at most. -/
theorem System.Step.shows {s' : System Conn} {evs : List (Happening Conn)} (h : System.Step s evs s') :
    evs = [] ∨ ∃ ev, evs = [ev] := by
  cases h with
  | start | database | finish | abort => exact Or.inr ⟨_, rfl⟩
  | readFails => exact Or.inl rfl
  | @local_ _ p op =>
    cases op with
    | sign => exact Or.inr ⟨_, rfl⟩
    | _ => exact Or.inl rfl

/-- A run can be cut at everything that happened in it. -/
theorem System.Run.cut {before after : List (Happening Conn)} {ev : Happening Conn}
    (h : System.Run db (before ++ ev :: after) s) :
    ∃ s₀ s₁, System.Run db before s₀ ∧ System.Step s₀ [ev] s₁ := by
  generalize hhist : before ++ ev :: after = hist at h
  induction h generalizing after with
  | nil => exact absurd hhist (by simp)
  | @snoc hist s₀ evs s₁ hrun hstep ih =>
    rcases hstep.shows with rfl | ⟨last, rfl⟩
    · rw [List.append_nil] at hhist
      exact ih hhist
    · rcases List.eq_nil_or_concat after with rfl | ⟨after', x, rfl⟩
      · obtain ⟨rfl, hlast⟩ := List.append_inj' hhist rfl
        obtain rfl := List.singleton_inj.mp hlast
        exact ⟨s₀, s₁, hrun, hstep⟩
      · have hsplit : (before ++ ev :: after') ++ [x] = hist ++ [last] := by
          rw [← hhist, List.append_assoc, List.cons_append, List.concat_eq_append]
        exact ih (List.append_inj' hsplit rfl).1

/-- A signature is an operation of a process. -/
theorem System.Step.signed {s' : System Conn} {id : Nat} {call : AnnouncementCall} {did room : PyStr}
    {nonce : PyInt} (h : System.Step s [.signed id call did room nonce] s') :
    ∃ c p capability text next, s.process c = some p ∧ p.call = call ∧ capability.did.did = did ∧
      p.rest = .perform (.sign capability room nonce text) next := by
  generalize hevs : [Happening.signed id call did room nonce] = evs at h
  cases h with
  | start | readFails | database | finish | abort => cases hevs
  | @local_ c p op next r w hp hrest =>
    cases op with
    | sign capability room' nonce' text =>
      cases hevs
      exact ⟨c, p, capability, text, next, hp, rfl, rfl, hrest⟩
    | _ => cases hevs

/-- **Preparations and publications sign a nonce once**, however the calls of any number of processes
interleave and wherever they are cut.

* When the capability is asked to sign, a reservation of that nonce has been committed and the row of its
  pair is there or further; and a call that was given a nonce signs with that one.
* No two signatures have the did, the room and the nonce in common.
* A call that returns has signed. -/
theorem announcements_sign_once (h : System.Run db hist s) :
    (∀ before id call did room nonce after, hist = before ++ .signed id call did room nonce :: after →
      ∃ n s₀ s₁, nonce = .int n ∧ System.Run db before s₀ ∧
        System.Step s₀ [.signed id call did room nonce] s₁ ∧
        (∃ c floor, .database (.returned c (.reserve did room floor) (.nonce n)) ∈ before) ∧
        n ≤ counter s₀.database.store did room ∧
        ∀ m, call.explicit = some m → nonce = m) ∧
    (signatures hist).Nodup ∧
    ∀ before id call after, hist = before ++ .finished id call (.ok ()) :: after →
      ∃ did room nonce, .signed id call did room nonce ∈ before := by
  refine ⟨?_, ?_, ?_⟩
  · rintro before id call did room nonce after rfl
    obtain ⟨s₀, s₁, hrun, hstep⟩ := h.cut
    obtain ⟨hold, hsound⟩ := hrun.sound
    obtain ⟨c, p, capability, text, next, hp, rfl, rfl, hrest⟩ := hstep.signed
    obtain ⟨n, rfl, htoken, hexplicit⟩ := (hsound.carries c p hp).pays hrest (.error ⟨.osError, []⟩)
    have hissued := (hsound.accounts.held c _ htoken).1
    refine ⟨n, s₀, s₁, rfl, hrun, hstep, ?_, hsound.accounts.committed _ hissued, fun m hm =>
      (hexplicit m hm).symm⟩
    obtain ⟨ev, hev, hsome⟩ := List.mem_filterMap.mp hissued
    unfold Happening.issued? at hsome
    split at hsome
    · cases hsome
      exact ⟨_, _, hev⟩
    · cases hsome
  · obtain ⟨hold, hsound⟩ := h.sound
    exact hsound.accounts.once
  · rintro before id call after rfl
    obtain ⟨s₀, s₁, hrun, hstep⟩ := h.cut
    obtain ⟨hold, hsound⟩ := hrun.sound
    generalize hevs : [Happening.finished id call (.ok ())] = evs at hstep
    cases hstep with
    | start | readFails | database | abort => cases hevs
    | @local_ _ p op =>
      cases op with
      | _ => cases hevs
    | @finish c p r hp hrest =>
      cases hevs
      have hcarries := hsound.carries c p hp
      have hend := hcarries.safe
      rw [hrest] at hend
      obtain ⟨x, hx, hsigned⟩ := hend.2 rfl
      cases hx
      exact hcarries.shown hsigned

end Runs

end System

section Lobby

attribute [local instance] asciiRuntime asciiBuiltins acceptAll

/-- A preparation that is given a nonce. -/
def lobbyPreparation (nonce : Int) : AnnouncementCall :=
  .prepare lobbySigner (some (.int nonce)) (py "lobby") (py "hello")

/-- The reservation it makes. -/
def lobbyReservation (floor : Int) : DbCall := .reserve lobbySigner.did.did (py "lobby") floor

/-- What two preparations do up to the first signature: the second reserves after the first, and signs
before it. -/
def lobbyBefore : List (Happening Bool) :=
  [.started 0 (lobbyPreparation 5), .started 1 (lobbyPreparation 6),
    .database (.began false (lobbyReservation 4)), .database (.executed false),
    .database (.executed false), .database (.returned false (lobbyReservation 4) (.nonce 5)),
    .database (.began true (lobbyReservation 5)), .database (.executed true),
    .database (.executed true), .database (.returned true (lobbyReservation 5) (.nonce 6)),
    .signed 1 (lobbyPreparation 6) lobbySigner.did.did (py "lobby") (.int 6)]

/-- Two preparations over an empty database, each on its connection, up to their signatures. -/
theorem lobbyPreparations_sign : ∃ s : System Bool, System.Run ⟨[], []⟩ (lobbyBefore ++
    .signed 0 (lobbyPreparation 5) lobbySigner.did.did (py "lobby") (.int 5) :: []) s := by
  have hstarted := (System.Run.nil : System.Run ⟨[], []⟩ [] (System.start _)).snoc
    (.start (c := false) (w := lobbyWorld) rfl rfl : System.Step _ [.started 0 (lobbyPreparation 5)] _)
  have hboth := hstarted.snoc
    (.start (c := true) (w := lobbyWorld) rfl rfl : System.Step _ [.started 1 (lobbyPreparation 6)] _)
  have hread := hboth.snoc (.local_ (c := false) rfl rfl trivial ⟨_, rfl, rfl, rfl⟩)
  have hread' := hread.snoc (.local_ (c := true) rfl rfl trivial ⟨_, rfl, rfl, rfl⟩)
  have hbegan := hread'.snoc (.database (.begin (c := false) (k := lobbyReservation 4) (fun _ => rfl) rfl) rfl
    ⟨rfl, _, _, _, rfl, rfl, rfl⟩)
  have hselected := hbegan.snoc (.database (.exec (c := false) rfl rfl) rfl rfl)
  have hupserted := hselected.snoc (.database (.exec (c := false) rfl rfl) rfl rfl)
  have hcommitted := hupserted.snoc
    (.database (.commit (c := false) rfl) rfl ⟨_, _, _, _, rfl, rfl, rfl, rfl, rfl⟩)
  have hbegan' := hcommitted.snoc
    (.database (.begin (c := true) (k := lobbyReservation 5) (fun d => by cases d <;> rfl) rfl) rfl
      ⟨rfl, _, _, _, rfl, rfl, rfl⟩)
  have hselected' := hbegan'.snoc (.database (.exec (c := true) rfl rfl) rfl rfl)
  have hupserted' := hselected'.snoc (.database (.exec (c := true) rfl rfl) rfl rfl)
  have hcommitted' := hupserted'.snoc
    (.database (.commit (c := true) rfl) rfl ⟨_, _, _, _, rfl, rfl, rfl, rfl, rfl⟩)
  have hsigned' := hcommitted'.snoc (.local_ (c := true) rfl rfl trivial ⟨rfl, rfl⟩)
  have hsigned := hsigned'.snoc (.local_ (c := false) rfl rfl trivial ⟨rfl, rfl⟩)
  exact ⟨_, hsigned⟩

theorem announcements_sign_once_lobby :
    (∃ s₀ s₁ : System Bool, System.Run ⟨[], []⟩ lobbyBefore s₀ ∧
      System.Step s₀ [.signed 0 (lobbyPreparation 5) lobbySigner.did.did (py "lobby") (.int 5)] s₁ ∧
      (∃ c floor, .database (.returned c (.reserve lobbySigner.did.did (py "lobby") floor) (.nonce 5)) ∈
        lobbyBefore) ∧
      5 ≤ counter s₀.database.store lobbySigner.did.did (py "lobby")) ∧
    (signatures (lobbyBefore ++
      .signed 0 (lobbyPreparation 5) lobbySigner.did.did (py "lobby") (.int 5) :: [])).Nodup := by
  obtain ⟨s, hrun⟩ := lobbyPreparations_sign
  obtain ⟨hsigned, honce, -⟩ := announcements_sign_once hrun
  obtain ⟨n, s₀, s₁, heq, hbefore, hstep, hreserved, hle, -⟩ := hsigned _ _ _ _ _ _ _ rfl
  cases heq
  exact ⟨⟨s₀, s₁, hbefore, hstep, hreserved, hle⟩, honce⟩

end Lobby

end FlopOffice.Technocore
