/-
# FlopOffice.Technocore.Gate — the one-time public write gate.

The gate is a small state machine: open, used, closed. `consume` either uses it or refuses, and a
refusal for a mismatch closes it. One way out does neither: the hash of a text with a lone surrogate
cannot be computed, and the gate stays open (`consume_cases`).
-/
import FlopOffice.Python.Builtins
import FlopOffice.Technocore.SignedWrite

namespace FlopOffice.Technocore

open FlopOffice.Identity FlopOffice.Python

/-! ## Hosts -/

/-- Hosts that must never receive a write. -/
def PUBLIC_HOSTS : List PyStr :=
  [py "technocore.chat", py "www.technocore.chat", py "api.technocore.chat"]

def LOOPBACK_HOSTS : List PyStr :=
  [py "127.0.0.1", py "localhost", py "::1", py "[::1]", py "0.0.0.0"]

def WRITE_ENABLE_ENV : PyStr := py "FLOPOFFICE_ALLOW_LOCAL_WRITE"

/-- `_is_sha256`. -/
def isSha256 (value : PyStr) : Bool :=
  value.length == 64 && value.all fun c => c ∈ py "0123456789abcdefABCDEF"

/-! ## The gate -/

/-- A one-use exception to the public host denylist; its host is on the denylist. -/
structure OneTimePublicWriteGate where
  host : PyStr
  room : PyStr
  messageSha256 : PyStr
  nonce : Int
  used : Bool := false
  closed : Bool := false
  host_public : host ∈ PUBLIC_HOSTS
  deriving DecidableEq

namespace OneTimePublicWriteGate

/-- `_closed = True`. -/
def close (g : OneTimePublicWriteGate) : OneTimePublicWriteGate := { g with closed := true }

@[simp] theorem close_closed (g : OneTimePublicWriteGate) : g.close.closed = true := rfl
@[simp] theorem close_used (g : OneTimePublicWriteGate) : g.close.used = g.used := rfl

/-- The gate is still good for a request. -/
def isOpen (g : OneTimePublicWriteGate) : Prop := g.closed = false ∧ g.used = false

theorem not_isOpen_close (g : OneTimePublicWriteGate) : ¬ g.close.isOpen := fun h => nomatch h.1

/-- `g'` is the object `g` at a later time: its scope is the same, and it has not been opened. -/
structure Follows (g g' : OneTimePublicWriteGate) : Prop where
  host : g'.host = g.host
  room : g'.room = g.room
  messageSha256 : g'.messageSha256 = g.messageSha256
  nonce : g'.nonce = g.nonce
  isOpen : g'.isOpen → g.isOpen

theorem Follows.refl (g : OneTimePublicWriteGate) : g.Follows g := ⟨rfl, rfl, rfl, rfl, id⟩

theorem Follows.trans {g g' g'' : OneTimePublicWriteGate} (h : g.Follows g') (h' : g'.Follows g'') :
    g.Follows g'' := by
  refine ⟨h'.host.trans h.host, h'.room.trans h.room, ?_, h'.nonce.trans h.nonce, ?_⟩
  · exact h'.messageSha256.trans h.messageSha256
  · exact fun hopen => h.isOpen (h'.isOpen hopen)

theorem follows_close (g : OneTimePublicWriteGate) : g.Follows g.close :=
  ⟨rfl, rfl, rfl, rfl, fun h => absurd h g.not_isOpen_close⟩

section Gate

variable [PyBuiltins]

/-- `OneTimePublicWriteGate(...)`. -/
def create (host room messageSha256 : PyStr) (nonce : PyInt) (confirm : Bool) :
    Except Exc OneTimePublicWriteGate := do
  let host := PyBuiltins.lower host
  let room ← validateRoom room
  let nonce ← validateNonce nonce
  if !confirm then
    throw ⟨.publicWriteRefused, py "public Technocore publish gate lacks confirmation"⟩
  if h : host ∈ PUBLIC_HOSTS then
    if !isSha256 messageSha256 then
      throw ⟨.publicWriteRefused, py "message_sha256 must be a 64-character hex digest"⟩
    pure { host, room, messageSha256, nonce, host_public := h }
  else
    throw ⟨.publicWriteRefused,
      py "one-time public publish gate is only valid for the public denylist"⟩

/-- A refusal of the gate. -/
def refusal (why : String) : Except Exc Unit :=
  .error ⟨.publicWriteRefused, py "one-time public publish gate " ++ py why⟩

/-- `consume`: what it raises, and the gate after it. -/
def consume (g : OneTimePublicWriteGate) (host : PyStr) (write : SignedWrite) :
    Except Exc Unit × OneTimePublicWriteGate :=
  if g.closed || g.used then (refusal "is already closed", g)
  else if PyBuiltins.lower host ≠ g.host then (refusal "host mismatch", g.close)
  else if write.room ≠ g.room then (refusal "room mismatch", g.close)
  else if write.nonce.toInt ≠ g.nonce then (refusal "nonce mismatch", g.close)
  else match utf8 write.sweptText with
    | .error e => (.error e, g)
    | .ok data =>
      if hexdigest data ≠ g.messageSha256 then (refusal "message mismatch", g.close)
      else (.ok (), { g with used := true })

/-- What the gate was made for is this write to this host. -/
def Admits (g : OneTimePublicWriteGate) (host : PyStr) (write : SignedWrite) : Prop :=
  PyBuiltins.lower host = g.host ∧ write.room = g.room ∧ write.nonce.toInt = g.nonce ∧
    ∃ data, utf8 write.sweptText = .ok data ∧ hexdigest data = g.messageSha256

/-- Everything up to the hash agrees, and the text has no hash. -/
def Unhashable (g : OneTimePublicWriteGate) (host : PyStr) (write : SignedWrite) : Prop :=
  PyBuiltins.lower host = g.host ∧ write.room = g.room ∧ write.nonce.toInt = g.nonce ∧
    ∃ e, utf8 write.sweptText = .error e

/-- **What `consume` does.** It passes on an open gate that admits the write, and uses it; it fails on
an open gate without a change where the text has no hash; otherwise it refuses, and the gate is not
open afterwards. -/
theorem consume_cases (g : OneTimePublicWriteGate) (host : PyStr) (write : SignedWrite) :
    (g.isOpen ∧ g.Admits host write ∧ g.consume host write = (.ok (), { g with used := true })) ∨
    (g.isOpen ∧ g.Unhashable host write ∧ ∃ e, e.cls = .unicodeEncodeError ∧
      g.consume host write = (.error e, g)) ∨
    ((g.isOpen → ¬ g.Admits host write ∧ ¬ g.Unhashable host write) ∧
      ∃ e, e.cls = .publicWriteRefused ∧ g.consume host write =
        (.error e, if g.closed || g.used then g else g.close)) := by
  unfold consume
  by_cases hopen : (g.closed || g.used) = true
  · right
    right
    rw [if_pos hopen]
    refine ⟨fun h => ?_, _, rfl, by rw [if_pos hopen]; rfl⟩
    rw [h.1, h.2] at hopen
    cases hopen
  rw [if_neg hopen]
  have hisOpen : g.isOpen := by
    rw [Bool.not_eq_true, Bool.or_eq_false_iff] at hopen
    exact hopen
  -- a mismatch of any of the four parts closes the gate
  have hclose : ∀ why : String,
      ∃ e, e.cls = ExcClass.publicWriteRefused ∧ (refusal why, g.close) =
        ((.error e : Except Exc Unit), if g.closed || g.used then g else g.close) := by
    intro why
    exact ⟨_, rfl, by rw [if_neg hopen]; rfl⟩
  by_cases hhost : PyBuiltins.lower host = g.host
  · rw [if_neg (not_not.mpr hhost)]
    by_cases hroom : write.room = g.room
    · rw [if_neg (not_not.mpr hroom)]
      by_cases hnonce : write.nonce.toInt = g.nonce
      · rw [if_neg (not_not.mpr hnonce)]
        cases hutf : utf8 write.sweptText with
        | error e =>
          exact Or.inr (Or.inl ⟨hisOpen, ⟨hhost, hroom, hnonce, e, hutf⟩, e, utf8_error hutf, rfl⟩)
        | ok data =>
          dsimp only
          by_cases hdata : hexdigest data = g.messageSha256
          · rw [if_neg (not_not.mpr hdata)]
            exact Or.inl ⟨hisOpen, ⟨hhost, hroom, hnonce, data, hutf, hdata⟩, rfl⟩
          · rw [if_pos hdata]
            refine Or.inr (Or.inr ⟨fun _ => ⟨?_, ?_⟩, hclose _⟩)
            · rintro ⟨-, -, -, data', hutf', hdata'⟩
              rw [hutf] at hutf'
              cases hutf'
              exact hdata hdata'
            · rintro ⟨-, -, -, e, he⟩
              rw [hutf] at he
              cases he
      · rw [if_pos hnonce]
        exact Or.inr (Or.inr ⟨fun _ => ⟨fun h => hnonce h.2.2.1, fun h => hnonce h.2.2.1⟩, hclose _⟩)
    · rw [if_pos hroom]
      exact Or.inr (Or.inr ⟨fun _ => ⟨fun h => hroom h.2.1, fun h => hroom h.2.1⟩, hclose _⟩)
  · rw [if_pos hhost]
    exact Or.inr (Or.inr ⟨fun _ => ⟨fun h => hhost h.1, fun h => hhost h.1⟩, hclose _⟩)

theorem follows_consume (g : OneTimePublicWriteGate) (host : PyStr) (write : SignedWrite) :
    g.Follows (g.consume host write).2 := by
  rcases g.consume_cases host write with ⟨hopen, -, h⟩ | ⟨-, -, e, -, h⟩ | ⟨-, e, -, h⟩
  · rw [h]
    exact ⟨rfl, rfl, rfl, rfl, fun _ => hopen⟩
  · rw [h]
    exact .refl g
  · rw [h]
    dsimp only
    split
    · exact .refl g
    · exact g.follows_close

/-- A gate passes a write only while it is open, and only the write it was made for. -/
theorem consume_eq_ok {g : OneTimePublicWriteGate} {host : PyStr} {write : SignedWrite}
    (h : (g.consume host write).1 = .ok ()) : g.isOpen ∧ g.Admits host write := by
  rcases g.consume_cases host write with ⟨hopen, hadmits, -⟩ | ⟨-, -, e, -, he⟩ | ⟨-, e, -, he⟩
  · exact ⟨hopen, hadmits⟩
  · rw [he] at h
    cases h
  · rw [he] at h
    cases h

/-- What a gate is made for. -/
theorem create_eq_ok {host room messageSha256 : PyStr} {nonce : PyInt} {confirm : Bool}
    {g : OneTimePublicWriteGate} (h : create host room messageSha256 nonce confirm = .ok g) :
    g.isOpen ∧ g.host = PyBuiltins.lower host ∧ g.room = room ∧ g.messageSha256 = messageSha256 ∧
      nonce = .int g.nonce := by
  simp only [create, bind_eq_ok, validateRoom_eq_ok, validateNonce_eq_ok] at h
  obtain ⟨_, ⟨-, rfl⟩, _, ⟨n, rfl, rfl, -⟩, h⟩ := h
  split at h
  · cases h
  split at h
  · split at h
    · cases h
    · cases h
      exact ⟨⟨rfl, rfl⟩, rfl, rfl, rfl, rfl⟩
  · cases h

theorem host_of_create {host room messageSha256 : PyStr} {nonce : PyInt} {confirm : Bool}
    {g : OneTimePublicWriteGate} (h : create host room messageSha256 nonce confirm = .ok g) :
    PyBuiltins.lower host ∈ PUBLIC_HOSTS := by
  rw [← (create_eq_ok h).2.1]
  exact g.host_public

/-- A gate can be made for a host on the denylist, and for nothing but a valid message. -/
theorem create_of_host {host room messageSha256 : PyStr} {n : Nat} (hhost : PyBuiltins.lower host ∈ PUBLIC_HOSTS)
    (hroom : IsRoom room) (hnonce : n < 10 ^ 19) (hsha : isSha256 messageSha256 = true) :
    ∃ g, create host room messageSha256 (.int n) true = .ok g := by
  refine ⟨⟨_, room, messageSha256, n, false, false, hhost⟩, ?_⟩
  simp only [create, bind_eq_ok, validateRoom_eq_ok, validateNonce_eq_ok]
  refine ⟨room, ⟨hroom, rfl⟩, n, ⟨n, rfl, rfl, hnonce⟩, ?_⟩
  rw [if_neg (by decide), dif_pos hhost, hsha]
  rfl

/-- An open gate lets the write pass that it was made for. -/
theorem consume_of_admits {g : OneTimePublicWriteGate} {host : PyStr} {write : SignedWrite}
    (hopen : g.isOpen) (h : g.Admits host write) : (g.consume host write).1 = .ok () := by
  rcases g.consume_cases host write with ⟨-, -, he⟩ | ⟨-, hun, -⟩ | ⟨hnot, -⟩
  · rw [he]
  · obtain ⟨-, -, -, data, hdata, -⟩ := h
    obtain ⟨-, -, -, e, he⟩ := hun
    rw [hdata] at he
    cases he
  · exact absurd h (hnot hopen).1

/-- Whatever `consume` does, the gate is open afterwards only where the text had no hash. -/
theorem consume_isOpen {g : OneTimePublicWriteGate} {host : PyStr} {write : SignedWrite}
    (h : (g.consume host write).2.isOpen) : g.isOpen ∧ g.Unhashable host write := by
  rcases g.consume_cases host write with ⟨-, -, he⟩ | ⟨hopen, hun, -⟩ | ⟨-, e, -, he⟩
  · rw [he] at h
    exact nomatch h.2
  · exact ⟨hopen, hun⟩
  · rw [he] at h
    dsimp only at h
    split at h
    · rename_i hdone
      rw [h.1, h.2] at hdone
      cases hdone
    · exact absurd h g.not_isOpen_close

end Gate

end OneTimePublicWriteGate

end FlopOffice.Technocore
