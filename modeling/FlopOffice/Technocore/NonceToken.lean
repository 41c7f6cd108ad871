/-
# FlopOffice.Technocore.NonceToken — a signature spends the nonce that was reserved for it.

The programs of the announcement follow one discipline. A reservation that returns hands out a token: the
did, the room and the nonce. The capability is asked to sign only what the token says, and that spends it.
`claims` is a semantics in which this can be said: its state is what the program holds, and after a signature
without a token there is no state. What is safe in it keeps the discipline whatever the operations answer.
-/
import FlopOffice.Technocore.Announcement

namespace FlopOffice.Technocore

open FlopOffice.Identity FlopOffice.Lib FlopOffice.Proof FlopOffice.Python

/-! ## The discipline -/

/-- What a reservation hands out. -/
structure Token where
  did : PyStr
  room : PyStr
  nonce : Int
  deriving DecidableEq

/-- What a program holds, and whether it has signed. -/
structure Hold where
  token : Option Token := none
  signed : Bool := false

/-- The token is for this signature, and the nonce is the one that was asked for, if one was. -/
def Hold.Pays (hold : Hold) (explicit : Option PyInt) (did room : PyStr) (nonce : PyInt) : Prop :=
  ∃ n, nonce = .int n ∧ hold.token = some ⟨did, room, n⟩ ∧ ∀ m, explicit = some m → m = .int n

/-- What an operation does to what a program holds. -/
def claims (explicit : Option PyInt) (g : Option Hold) :
    (op : Op) → Except Exc (Ans op) → Option Hold → Prop
  | .reserve did scope _, r, g' => g' = g.map fun hold => { hold with
      token := match r with
        | .ok n => some ⟨did, scope, n⟩
        | .error _ => none }
  | .sign capability room nonce _, _, g' => ∃ hold, g = some hold ∧
      (hold.Pays explicit capability.did.did room nonce → g' = some { signed := true }) ∧
      (¬ hold.Pays explicit capability.did.did room nonce → g' = none)
  | _, _, g' => g' = g

/-- The discipline has been kept. -/
def Kept (g : Option Hold) : Prop := g ≠ none

/-- An operation that neither reserves nor signs. -/
def Op.Silent : Op → Prop
  | .reserve .. | .sign .. => False
  | _ => True

variable {explicit : Option PyInt} {hold : Hold}

/-- A silent program holds at its end what it held before. -/
theorem safe_silent {α : Type} {p : Prog α} (h : Proc.Only Op.Silent p) :
    Proc.Safe (claims explicit) Kept (fun _ g => g = some hold) p (some hold) := by
  refine h.safe (fun op r g' hop hsem => ?_) nofun
  cases op with
  | reserve | sign => exact hop.elim
  | environ | acquire | get | newGate | consume | close | utcNow | append | current => exact hsem

theorem claims_reserve {did scope : PyStr} {floor : Int} {Q : Except Exc Int → Option Hold → Prop}
    (hreturned : ∀ n, Q (.ok n) (some { hold with token := some ⟨did, scope, n⟩ }))
    (hraised : ∀ e, Q (.error e) (some { hold with token := none })) :
    Proc.Safe (claims explicit) Kept Q (noncesReserve did scope floor) (some hold) := by
  refine Proc.safe_call.mpr ⟨nofun, ?_⟩
  rintro r _ rfl
  cases r with
  | ok n => exact ⟨nofun, hreturned n⟩
  | error e => exact ⟨nofun, hraised e⟩

theorem claims_sign {capability : CapabilitySigner} {room text : PyStr} {nonce : PyInt}
    {Q : Except Exc SignedMessage → Option Hold → Prop}
    (hpays : hold.Pays explicit capability.did.did room nonce)
    (hsigned : ∀ r, Q r (some { signed := true })) :
    Proc.Safe (claims explicit) Kept Q (signMessage capability room nonce text) (some hold) := by
  refine Proc.safe_call.mpr ⟨nofun, ?_⟩
  rintro r g' ⟨hold', heq, hspent, -⟩
  cases heq
  rw [hspent hpays]
  exact ⟨nofun, hsigned r⟩

/-! ## Programs that hold nothing -/

theorem closeGiven_silent (publicGate : Option Nat) :
    Proc.Only Op.Silent (TechnocoreClient.closeGiven publicGate) := by
  cases publicGate with
  | none => trivial
  | some i => exact Proc.only_call trivial

theorem assertWriteAllowed_silent [PyRuntime] (client : TechnocoreClient) (write : SignedWrite)
    (publicGate : Option Nat) : Proc.Only Op.Silent (client.assertWriteAllowed write publicGate) := by
  unfold TechnocoreClient.assertWriteAllowed
  cases publicGate with
  | some i =>
    exact Proc.only_ite ((Proc.only_call trivial).bind fun _ => trivial) (Proc.only_call trivial)
  | none =>
    refine Proc.only_ite trivial (Proc.only_ite trivial ?_)
    have hflag : Proc.Only Op.Silent (environGet WRITE_ENABLE_ENV) := Proc.only_call trivial
    exact hflag.bind fun flag => Proc.only_ite trivial trivial

theorem request_silent (client : TechnocoreClient) (write : SignedWrite) :
    Proc.Only Op.Silent (client.request write) := by
  unfold TechnocoreClient.request
  refine Proc.Only.bind (Proc.Only.catch_ ?_ fun e => Proc.only_ite trivial trivial) fun response => ?_
  · exact Proc.only_lift.bind fun _ => Proc.only_call trivial
  · exact Proc.only_ite trivial Proc.only_lift

theorem sendSignedMessage_silent [PyRuntime] [Ed25519] (client : TechnocoreClient) (write : SignedWrite)
    (publicGate : Option Nat) : Proc.Only Op.Silent (client.sendSignedMessage write publicGate) := by
  unfold TechnocoreClient.sendSignedMessage
  refine Proc.Only.finally_ (Proc.only_lift.bind fun verified => Proc.only_ite trivial ?_)
    (closeGiven_silent publicGate)
  refine (assertWriteAllowed_silent client write publicGate).bind fun _ => ?_
  exact (Proc.only_call trivial).bind fun _ => request_silent client write

theorem recordLocalAnnouncementProof_silent [Ed25519] (proof : AnnouncementProof) (taskId : PyStr) :
    Proc.Only Op.Silent (recordLocalAnnouncementProof proof taskId) := by
  have hrow : ∀ {α : Type} {activity : PyStr → Activity} {next : LedgerRecord → Prog α},
      (∀ record, Proc.Only Op.Silent (next record)) →
      Proc.Only Op.Silent (utcNow >>= fun t => ledgerAppend (activity t) >>= next) := fun hnext =>
    (Proc.only_call trivial).bind fun _ => (Proc.only_call trivial).bind hnext
  unfold recordLocalAnnouncementProof
  refine Proc.only_lift.bind fun ok => Proc.only_ite trivial ?_
  exact hrow fun _ => hrow fun _ => hrow fun _ => hrow fun _ => trivial

theorem recordPublishResult_silent (preparation : AnnouncementPreparation) (delivered : Bool)
    (status : PyStr) (hash : Option PyStr) (seq : Option PyInt) (error : Option PyStr) :
    Proc.Only Op.Silent (recordPublishResult preparation delivered status hash seq error) :=
  (Proc.only_call trivial).bind fun _ => Proc.only_call trivial

theorem recordResponse_silent [PyRuntime] (preparation : AnnouncementPreparation) (response : PyVal) :
    Proc.Only Op.Silent (recordResponse preparation response) := by
  unfold recordResponse
  refine Proc.only_lift.bind fun hash => ?_
  dsimp only
  split
  · exact (recordPublishResult_silent ..).bind fun _ => trivial
  · exact (recordPublishResult_silent ..).bind fun _ => trivial

theorem sendPrepared_silent [PyRuntime] [Ed25519] (client : TechnocoreClient)
    (preparation : AnnouncementPreparation)
    (write : SignedWrite) (gate : Nat) :
    Proc.Only Op.Silent (sendPrepared client preparation write gate) := by
  unfold sendPrepared
  refine Proc.Only.bind (Proc.Only.catch_ (sendSignedMessage_silent client write (some gate)) fun e => ?_)
    fun response => recordResponse_silent preparation response
  exact Proc.only_ite ((recordPublishResult_silent ..).bind fun _ => trivial) trivial

/-! ## Programs that reserve and sign -/

/-- **A reservation** for an announcement hands out the token of the number it returns, which is the one
that was asked for. -/
theorem claims_reserveAnnouncementNonce {did room : PyStr} {nonce : Option PyInt}
    {Q : Except Exc Int → Option Hold → Prop}
    (hraised : ∀ token e, Q (.error e) (some { token := token }))
    (hreturned : ∀ n, (∀ m, nonce = some m → m = .int n) →
      Q (.ok n) (some { token := some ⟨did, room, n⟩ })) :
    Proc.Safe (claims nonce) Kept Q (reserveAnnouncementNonce did room nonce) (some {}) := by
  unfold reserveAnnouncementNonce
  rw [Proc.safe_bind]
  have hcurrent : Proc.Only Op.Silent (noncesCurrent did (scopeForRoom room)) := Proc.only_call trivial
  refine (safe_silent hcurrent).mono (fun _ => id) fun r g _ hg => ?_
  subst hg
  cases r with
  | error e => exact ⟨nofun, hraised none e⟩
  | ok current =>
    dsimp only
    cases nonce with
    | none =>
      refine claims_reserve (fun n => hreturned n nofun) fun e => hraised none e
    | some m =>
      dsimp only
      rw [Proc.safe_bind, Proc.safe_lift]
      refine ⟨nofun, ?_⟩
      cases hvalid : validateNonce m with
      | error e => exact ⟨nofun, hraised none e⟩
      | ok chosen =>
        obtain ⟨k, rfl, hk, -⟩ := validateNonce_eq_ok.mp hvalid
        dsimp only
        rw [Proc.safe_ite]
        refine ⟨fun _ => ⟨nofun, hraised none _⟩, fun _ => ?_⟩
        rw [Proc.safe_ite]
        refine ⟨fun _ => ⟨nofun, hraised none _⟩, fun _ => ?_⟩
        rw [Proc.safe_bind]
        refine claims_reserve (fun n => ?_) fun e => ⟨nofun, hraised none e⟩
        dsimp only
        rw [Proc.safe_ite]
        refine ⟨fun _ => ⟨nofun, hraised _ _⟩, fun heq => ⟨nofun, hreturned n fun m' hm' => ?_⟩⟩
        cases hm'
        have hsame : n = chosen := not_not.mp heq
        rw [hsame, hk]

section Announce

variable [Ed25519]

/-- **The signature** spends the token. -/
theorem claims_buildLocalAnnouncementProof {capability : CapabilitySigner} {room text : PyStr}
    {chosen : Int} {explicit : Option PyInt} {Q : Except Exc AnnouncementProof → Option Hold → Prop}
    (hexplicit : ∀ m, explicit = some m → m = .int chosen)
    (hraised : ∀ g e, Kept g → Q (.error e) g)
    (hreturned : ∀ proof, Q (.ok proof) (some { signed := true })) :
    Proc.Safe (claims explicit) Kept Q
      (buildLocalAnnouncementProof capability (.int chosen) room text)
      (some { token := some ⟨capability.did.did, room, chosen⟩ }) := by
  have hfail : ∀ {g : Option Hold} (e : Exc), Kept g → Kept g ∧ Q (.error e) g := fun e hg =>
    ⟨hg, hraised _ e hg⟩
  unfold buildLocalAnnouncementProof
  rw [Proc.safe_bind, Proc.safe_lift]
  refine ⟨nofun, ?_⟩
  cases hvalid : validateNonce (.int chosen) with
  | error e => exact hfail e nofun
  | ok n =>
    obtain ⟨k, hk, rfl, -⟩ := validateNonce_eq_ok.mp hvalid
    injection hk with hk
    subst hk
    dsimp only
    rw [Proc.safe_ite]
    refine ⟨fun _ => hfail _ nofun, fun _ => ?_⟩
    rw [Proc.safe_bind]
    refine claims_sign ⟨_, rfl, rfl, hexplicit⟩ fun r => ?_
    -- what is left only computes
    cases r with
    | error e => exact hfail e nofun
    | ok signed =>
      dsimp only
      rw [Proc.safe_ite]
      refine ⟨fun _ => hfail _ nofun, fun _ => ?_⟩
      rw [Proc.safe_bind, Proc.safe_lift]
      refine ⟨nofun, ?_⟩
      cases messagePayload room (.int k) (singleLineSweep text) DEFAULT_SWEEP true with
      | error e => exact hfail e nofun
      | ok payload =>
        dsimp only
        rw [Proc.safe_bind, Proc.safe_lift]
        refine ⟨nofun, ?_⟩
        cases verifyMessage signed.did signed.signature room (.int k) (singleLineSweep text) with
        | error e => exact hfail e nofun
        | ok verified =>
          dsimp only
          rw [Proc.safe_bind, Proc.safe_lift]
          refine ⟨nofun, ?_⟩
          cases sha256Text text with
          | error e => exact hfail e nofun
          | ok originalTextHash =>
            dsimp only
            rw [Proc.safe_bind, Proc.safe_lift]
            refine ⟨nofun, ?_⟩
            cases sha256Text (singleLineSweep text) with
            | error e => exact hfail e nofun
            | ok canonicalTextHash => exact ⟨nofun, hreturned _⟩

/-- **A preparation** keeps the discipline; one that returns has signed. -/
theorem claims_prepareFirstAnnouncement {capability : CapabilitySigner} {nonce : Option PyInt}
    {room text : PyStr} {Q : Except Exc AnnouncementPreparation → Option Hold → Prop}
    (hraised : ∀ g e, Kept g → Q (.error e) g)
    (hreturned : ∀ preparation, Q (.ok preparation) (some { signed := true })) :
    Proc.Safe (claims nonce) Kept Q (prepareFirstAnnouncement capability nonce room text) (some {}) := by
  unfold prepareFirstAnnouncement
  rw [Proc.safe_bind]
  refine claims_reserveAnnouncementNonce (fun token e => ⟨nofun, hraised _ e nofun⟩) fun n hn => ?_
  dsimp only
  rw [Proc.safe_bind]
  refine claims_buildLocalAnnouncementProof hn (fun g e hg => ⟨hg, hraised g e hg⟩) fun proof => ?_
  dsimp only
  rw [Proc.safe_bind]
  refine (safe_silent (recordLocalAnnouncementProof_silent proof announcementTaskId)).mono
    (fun _ => id) fun r g hg heq => ?_
  subst heq
  cases r with
  | error e => exact ⟨hg, hraised _ e hg⟩
  | ok records => exact ⟨hg, hreturned _⟩

/-- **A publication** keeps the discipline; one that returns has signed. -/
theorem claims_publishFirstAnnouncementOnce [PyRuntime] [PyBuiltins] {capability : CapabilitySigner}
    {client : TechnocoreClient} {room sha : PyStr} {confirm : Bool}
    {Q : Except Exc AnnouncementPublishResult → Option Hold → Prop}
    (hraised : ∀ g e, Kept g → Q (.error e) g)
    (hreturned : ∀ result, Q (.ok result) (some { signed := true })) :
    Proc.Safe (claims none) Kept Q (publishFirstAnnouncementOnce capability client room sha confirm)
      (some {}) := by
  have hfail : ∀ {g : Option Hold} (e : Exc), Kept g → Kept g ∧ Q (.error e) g := fun e hg =>
    ⟨hg, hraised _ e hg⟩
  unfold publishFirstAnnouncementOnce
  rw [Proc.safe_ite]
  refine ⟨fun _ => hfail _ nofun, fun _ => ?_⟩
  rw [Proc.safe_ite]
  refine ⟨fun _ => hfail _ nofun, fun _ => ?_⟩
  rw [Proc.safe_ite]
  refine ⟨fun _ => hfail _ nofun, fun _ => ?_⟩
  rw [Proc.safe_bind]
  refine claims_prepareFirstAnnouncement (fun g e hg => hfail e hg) fun preparation => ?_
  dsimp only
  rw [Proc.safe_ite]
  refine ⟨fun _ => hfail _ nofun, fun _ => ?_⟩
  rw [Proc.safe_bind, Proc.safe_lift]
  refine ⟨nofun, ?_⟩
  cases checkedProof preparation.proof with
  | error e => exact hfail e nofun
  | ok checked =>
    dsimp only
    rw [Proc.safe_ite]
    refine ⟨fun _ => hfail _ nofun, fun _ => ?_⟩
    rw [Proc.safe_bind, Proc.safe_lift]
    refine ⟨nofun, ?_⟩
    cases messagePayload preparation.proof.room preparation.proof.nonce
      preparation.proof.canonicalText DEFAULT_SWEEP true with
    | error e => exact hfail e nofun
    | ok payload =>
      dsimp only
      rw [Proc.safe_bind, Proc.safe_lift]
      refine ⟨nofun, ?_⟩
      cases (proofWrite preparation.proof payload).verifies with
      | error e => exact hfail e nofun
      | ok verifies =>
        dsimp only
        rw [Proc.safe_ite]
        refine ⟨fun _ => hfail _ nofun, fun _ => ?_⟩
        rw [Proc.safe_bind, Proc.safe_lift]
        refine ⟨nofun, ?_⟩
        cases OneTimePublicWriteGate.create client.host preparation.proof.room sha
          preparation.proof.nonce true with
        | error e => exact hfail e nofun
        | ok object =>
          have hrest : Proc.Only Op.Silent (newGate object >>= fun gate =>
              sendPrepared client preparation (proofWrite preparation.proof payload) gate) :=
            (Proc.only_call trivial).bind fun gate => sendPrepared_silent ..
          show Proc.Safe (claims none) Kept Q (newGate object >>= _) _
          refine (safe_silent hrest).mono (fun _ => id) fun r g hg heq => ?_
          subst heq
          cases r with
          | error e => exact hraised _ e hg
          | ok result => exact hreturned result

end Announce

end FlopOffice.Technocore
