/-
# FlopOffice.Identity.Scopes — which rooms share a counter with a note namespace.

The scope of a namespace is `kv:` and its name, the scope of a room is the room. Names have no colon, but
rooms may: a room that is spelled `kv:` and a name has the counter of that namespace, and no other room has
the counter of any.
-/
import FlopOffice.Identity.Nonce

namespace FlopOffice.Identity

open FlopOffice.Lib FlopOffice.Python FlopOffice.Storage

section Scopes

variable [PyRuntime]

/-! ## What a call can see of a table -/

/-- The scope a call is made for. -/
def NonceCall.scope : NonceCall → PyStr
  | .reserve _ scope _ => scope
  | .observe _ scope _ => scope

/-- `current` and `reserve` give the same for the pair, whichever of the two tables they find. -/
structure SameFor (agentDid scope : PyStr) (db db' : Database) : Prop where
  current : Identity.current agentDid scope db' = Identity.current agentDid scope db
  reserve : ∀ floor block, Identity.reserve agentDid scope floor = .ok block →
    (block.run db').map Prod.fst = (block.run db).map Prod.fst

omit [PyRuntime] in
theorem current_congr {d s : PyStr} {db db' : Database} (h : nonceRow? db' d s = nonceRow? db d s) :
    current d s db' = current d s db := by
  have hread : ∀ db, selectNonce d s db =
      (bindValue (.str d)).bind fun _ => (bindValue (.str s)).bind fun _ => .ok (nonceRow? db d s) :=
    fun _ => rfl
  rw [current, current, hread, hread, h]

omit [PyRuntime] in
/-- Whether an upsert succeeds does not depend on the table. -/
theorem upsertNonce_fst {d s : PyStr} {n : Int} (db db' : Database) :
    (upsertNonce d s n db').map Prod.fst = (upsertNonce d s n db).map Prod.fst := by
  unfold upsertNonce
  cases bindValue (.str d) with
  | error e => rfl
  | ok _ =>
    cases bindValue (.str s) with
    | error e => rfl
    | ok _ =>
      cases bindValue (.int n) with
      | error e => rfl
      | ok _ =>
        simp only [bind, Except.bind]
        split <;> rfl

/-- **The row of a pair is all that its calls see.** -/
theorem sameFor_of_row {d s : PyStr} {db db' : Database} (h : nonceRow? db' d s = nonceRow? db d s) :
    SameFor d s db db' := by
  refine ⟨current_congr h, fun floor block hblock => ?_⟩
  have hreserve : block = reserveBlock d s floor := by
    unfold Identity.reserve at hblock
    split at hblock
    · cases hblock
    split at hblock
    · cases hblock
    split at hblock
    · cases hblock
    · cases hblock
      rfl
  subst hreserve
  unfold reserveBlock
  rw [Block.run_bind, Block.run_bind, Block.run_stmt, Block.run_stmt, current_congr h]
  cases current d s db with
  | error e => rfl
  | ok stored =>
    show Except.map Prod.fst (Block.run (if _ then _ else _) db') =
      Except.map Prod.fst (Block.run (if _ then _ else _) db)
    split
    · -- out of range: the table is not looked at again
      rw [Block.run_bind, Block.run_bind, Block.run_lift, Block.run_lift]
      cases strInt (max stored floor + 1) <;> rfl
    · split
      · split <;> rfl
      · rw [Block.run_bind, Block.run_bind, Block.run_stmt, Block.run_stmt]
        have hfst := upsertNonce_fst (d := d) (s := s) (n := max stored floor + 1) db db'
        cases hdb : upsertNonce d s (max stored floor + 1) db with
        | error e =>
          rw [hdb] at hfst
          cases hdb' : upsertNonce d s (max stored floor + 1) db' with
          | error e' =>
            rw [hdb'] at hfst
            cases hfst
            rfl
          | ok r' =>
            rw [hdb'] at hfst
            cases hfst
        | ok r =>
          rw [hdb] at hfst
          cases hdb' : upsertNonce d s (max stored floor + 1) db' with
          | error e' =>
            rw [hdb'] at hfst
            cases hfst
          | ok r' => rfl

/-! ## Histories -/

/-- Whatever has happened before: as long as only calls for the scope `s` return, nothing changes for the
scope `s'`, whatever the did. -/
def Insulated (s s' : PyStr) : Prop :=
  ∀ (Conn : Type) [DecidableEq Conn] (db : Database) (evs evs' : List (Event Conn Exc Int NonceCall))
    (m m' : Machine Conn Database Exc Int NonceCall),
    Run NonceCall.prog (Machine.start db) evs m → Run NonceCall.prog m evs' m' →
    (∀ e ∈ returns evs', e.1.scope = s) → ∀ d, SameFor d s' m.store m'.store

omit [PyRuntime] in
theorem op?_of_scope_ne {call : NonceCall} {d s : PyStr} (h : call.scope ≠ s) : call.op? d s = none := by
  cases call with
  | reserve agentDid scope floor => exact if_neg fun hp => h hp.2
  | observe agentDid scope nonce => exact if_neg fun hp => h hp.2

/-- **Different scopes are insulated.** -/
theorem insulated_of_ne {s s' : PyStr} (h : s ≠ s') : Insulated s s' := by
  intro Conn _ db evs evs' m m' hrun hrun' hall d
  have hcoherent := (hrun.coherent_serial (Coherent.start _ _)).1
  have hserial := (hrun'.coherent_serial hcoherent).2
  obtain ⟨-, -, hrow⟩ := serial_counter hserial d s'
  refine sameFor_of_row (hrow (List.filterMap_eq_nil_iff.mpr fun e he => ?_))
  exact op?_of_scope_ne fun hs => h ((hall e he).symm.trans hs)

/-! ## Rooms and namespaces -/

/-- **When a room has a counter of its own**: exactly if it is not spelled `kv:` and a name. Then its scope
is none of a namespace, and no history of calls for a namespace changes what the room sees, or the other
way around. -/
theorem scopes_disjoint_iff {room : PyStr} (hroom : validateRoom room = .ok room) :
    (∀ ns kind, validateName ns kind = .ok ns → scopeForRoom room ≠ scopeForKv ns ∧
      Insulated (scopeForKv ns) (scopeForRoom room) ∧ Insulated (scopeForRoom room) (scopeForKv ns)) ↔
    ¬ ∃ name, IsName name ∧ room = py "kv:" ++ name := by
  constructor
  · rintro hall ⟨name, hname, rfl⟩
    have haccepted : validateName name [] = .ok name :=
      validateName_eq_ok.mpr ⟨matchStart_NAME_RE.mpr ⟨name, hname, Or.inl rfl⟩, rfl⟩
    exact (hall name [] haccepted).1 rfl
  · intro hnot ns kind hns
    have hne : scopeForRoom room ≠ scopeForKv ns := by
      intro heq
      obtain ⟨name, hname, rfl | rfl⟩ := matchStart_NAME_RE.mp (validateName_eq_ok.mp hns).1
      · exact hnot ⟨_, hname, heq⟩
      · -- `$` lets a line feed pass, but rooms have none
        obtain ⟨-, -, hswept, -⟩ := (validateRoom_eq_ok.mp hroom).1
        have hfeed : isSwept (cp '\n') = true := by decide
        have hmem : cp '\n' ∈ room := by
          rw [show room = py "kv:" ++ (name ++ [cp '\n']) from heq]
          simp
        have hnone := (singleLineSweep_eq_self_iff.mp hswept).1 _ hmem
        rw [hfeed] at hnone
        cases hnone
    exact ⟨hne, insulated_of_ne hne.symm, insulated_of_ne hne⟩

end Scopes

section Lobby

attribute [local instance] asciiRuntime

/-- **A room with the counter of a namespace**: `kv:notes` is accepted. -/
theorem room_shares_scope : ¬ ∀ room ns kind, validateRoom room = .ok room →
    validateName ns kind = .ok ns → scopeForRoom room ≠ scopeForKv ns := by
  intro hall
  exact hall (py "kv:notes") (py "notes") [] (by decide) (by decide) rfl

theorem scopes_disjoint_iff_lobby : Insulated (scopeForKv (py "notes")) (scopeForRoom (py "lobby")) := by
  have hroom : validateRoom (py "lobby") = .ok (py "lobby") := by decide
  have hnotes : validateName (py "notes") [] = .ok (py "notes") := by decide
  refine ((scopes_disjoint_iff hroom).mpr ?_ _ _ hnotes).2.1
  rintro ⟨name, -, heq⟩
  cases heq

end Lobby

end FlopOffice.Identity
