/-
# FlopOffice.Cli.PublishCommand — `publish-technocore-announcement`.

The command checks its arguments, the working tree and the configuration before it asks for a passphrase;
the passphrase, before it opens the ledger; and publishes once. Each step is an operation on what surrounds
the command, so that what it has touched at any point can be read off (`publish_command`): a command that is
not cleared touches nothing, one whose signer does not open publishes nothing, and what it prints it prints
of a publication that is in the ledger.
-/
import FlopOffice.Identity.RootSigner
import FlopOffice.Lib.Embedding
import FlopOffice.Technocore.Journal
import FlopOffice.Technocore.SignedWrite

namespace FlopOffice.Cli

open FlopOffice.Config FlopOffice.Identity FlopOffice.Lib FlopOffice.Proof FlopOffice.Python
  FlopOffice.Technocore

/-! ## What surrounds a command -/

/-- What a command does, beside what a publication does. -/
inductive CommandOp
  /-- `subprocess.run(["git", "status", "--porcelain"])` -/
  | gitStatus
  | load
  | getpass
  /-- `root_agent_capability_signer(passphrase, enable=True)` -/
  | signer (passphrase : PyStr)
  /-- `connect(path)`, up to the connection it returns; one that it opens before it raises is not closed. -/
  | connect (path : Path)
  /-- `conn.close()` -/
  | disconnect
  | print (line : PyStr)
  /-- `print(line, file=sys.stderr)` -/
  | complain (line : PyStr)
  | publication (op : Op)

/-- What an operation answers; `git` its return code and its output. -/
def CommandAns : CommandOp → Type
  | .gitStatus => Int × PyStr
  | .load => Settings
  | .getpass => PyStr
  | .signer _ => CapabilitySigner
  | .connect _ | .disconnect | .print _ | .complain _ => Unit
  | .publication op => Ans op

/-- A command. -/
abbrev CommandProg (α : Type) : Type := Proc CommandOp CommandAns Exc α

def gitStatus : CommandProg (Int × PyStr) := Proc.call CommandOp.gitStatus

def loadSettings : CommandProg Settings := Proc.call CommandOp.load

def getpass : CommandProg PyStr := Proc.call CommandOp.getpass

def rootSigner (passphrase : PyStr) : CommandProg CapabilitySigner :=
  Proc.call (CommandOp.signer passphrase)

def connectLedger (path : Path) : CommandProg Unit := Proc.call (CommandOp.connect path)

def disconnect : CommandProg Unit := Proc.call CommandOp.disconnect

def print (line : PyStr) : CommandProg Unit := Proc.call (CommandOp.print line)

def complain (line : PyStr) : CommandProg Unit := Proc.call (CommandOp.complain line)

/-- A publication, in a command. -/
def publishing {α : Type} (p : Prog α) : CommandProg α := p.embed CommandOp.publication fun _ => id

/-- What a command has done, as an observer sees it. -/
inductive Done
  | asked
  | triedKey
  | opened (path : Path)
  | closed
  | printed (line : PyStr)
  | complained (line : PyStr)

/-- What surrounds a command. `git` is what the subprocess answers, `passphrase` what is typed. -/
structure Console where
  world : World
  fs : FileSystem
  osEnviron : Environ
  git : Except Exc (Int × PyStr)
  passphrase : Except Exc PyStr
  done : List Done

/-- One thing more was done. -/
def Console.did (c : Console) (d : Done) : Console := { c with done := c.done ++ [d] }

@[simp] theorem Console.did_world (c : Console) (d : Done) : (c.did d).world = c.world := rfl

@[simp] theorem Console.did_fs (c : Console) (d : Done) : (c.did d).fs = c.fs := rfl

@[simp] theorem Console.did_osEnviron (c : Console) (d : Done) : (c.did d).osEnviron = c.osEnviron := rfl

@[simp] theorem Console.did_done (c : Console) (d : Done) : (c.did d).done = c.done ++ [d] := rfl

/-! ## The command -/

def EXIT_OK : Int := 0

def EXIT_ERROR : Int := 3

/-- The arguments of the command. -/
structure PublishArgs where
  baseUrl : PyStr
  room : PyStr
  messageSha256 : PyStr
  ledger : Option PyStr
  confirmPublicTechnocorePublish : Bool

/-- `print(line, file=sys.stderr)` and `return EXIT_ERROR`. -/
def refuse (line : String) : CommandProg Int := do
  complain (py line)
  pure EXIT_ERROR

/-- `_repo_is_clean`. -/
def repoIsClean : CommandProg Bool :=
  gitStatus.handle fun r => match r with
    | .ok (code, stdout) => pure (decide (code = 0) && decide (strip stdout = []))
    | .error e => if e.cls = .osError then pure false else .raise e

/-- `except (AnnouncementPreparationError, ConfigError, DidMismatchError, KeystoreError)`. -/
def stops (e : Exc) : Bool :=
  e.cls = .announcementPreparationError || e.cls = .configError || e.cls.isKeystoreError

/-- The handler of the flow: an exit code, or the exception again. -/
def stopFlow (e : Exc) : CommandProg (Int ⊕ AnnouncementPublishResult) :=
  if stops e then do
    let code ← refuse "ERROR: publish flow stopped fail-closed"
    pure (.inl code)
  else .raise e

/-- `Path(args.ledger) if args.ledger else settings.ledger_path`. -/
def ledgerPath (args : PublishArgs) (settings : Settings) : Path :=
  match args.ledger with
  | some path => if path = [] then settings.ledgerPath else .ofStr path
  | none => settings.ledgerPath

/-- `f"server seq: {seq}"`, after its label. -/
def seqText : Option PyInt → Except Exc PyStr
  | some seq => seq.str
  | none => .ok (py "None")

/-- What is printed of a publication. -/
def reportPublished (result : AnnouncementPublishResult) : CommandProg Int := do
  let did := result.preparation.proof.did
  print (py "root DID: " ++ (removePrefix (py "did:key:") did).take 4 ++ py "..." ++ takeLast 4 did)
  print (py "message prepared: yes")
  print (py "canonicalization: PASS")
  print (py "signature verification: PASS")
  print (py "ledger proof: recorded")
  print (py "Technocore publish: SENT")
  let seq ← Proc.lift (seqText result.serverSeq)
  print (py "server seq: " ++ seq)
  print (py "status: PUBLISHED")
  pure EXIT_OK

/-- `s.rstrip("/")`. -/
def rstripSlashes (s : PyStr) : PyStr := s.rdropWhile fun c => c == cp '/'

/-- The only base URL there is a client for. -/
def PUBLIC_BASE_URL : PyStr := py "https://technocore.chat"

section Command

variable [PyRuntime] [PyBuiltins] [Ed25519]

/-- The `try` of the command; the client is that of `PUBLIC_BASE_URL`. -/
def publishFlow (args : PublishArgs) (settings : Settings) :
    CommandProg (Int ⊕ AnnouncementPublishResult) :=
  Proc.handle (do
      let passphrase ← getpass
      rootSigner passphrase) fun r => match r with
    | .error e => stopFlow e
    | .ok capability =>
      (connectLedger (ledgerPath args settings)).handle fun r => match r with
        | .error e => stopFlow e
        | .ok () =>
          Proc.finally_ (Proc.handle (publishing (publishFirstAnnouncementOnce capability publicClient
              args.room args.messageSha256 true)) fun r => match r with
            | .error e => stopFlow e
            | .ok result => pure (.inr result)) disconnect

/-- `_cmd_publish_technocore_announcement`. -/
def cmdPublish (args : PublishArgs) : CommandProg Int :=
  if !args.confirmPublicTechnocorePublish then
    refuse "ERROR: exact public publish confirmation flag is required"
  else if args.room ≠ FIRST_ANNOUNCEMENT_ROOM then
    refuse "ERROR: room does not match the reviewed announcement"
  else if args.messageSha256 ≠ FIRST_ANNOUNCEMENT_SHA256 then
    refuse "ERROR: message SHA-256 does not match the reviewed announcement"
  else if rstripSlashes args.baseUrl ≠ PUBLIC_BASE_URL then
    refuse "ERROR: base URL must be exactly https://technocore.chat"
  else do
    let clean ← repoIsClean
    if !clean then refuse "ERROR: repository has uncommitted changes; refusing to publish"
    else loadSettings.handle fun r => match r with
      | .error e =>
        if e.cls = .configError then refuse "ERROR: public/path configuration is invalid" else .raise e
      | .ok settings =>
        if settings.keystorePath = none then
          refuse "ERROR: explicit FLOPOFFICE_KEYSTORE configuration is required"
        else do
          let outcome ← publishFlow args settings
          match outcome with
          | .inl code => pure code
          | .inr result => reportPublished result

end Command

/-! ## What the operations do -/

section Semantics

variable [PyRuntime] [PyBuiltins] [PemKeys]

/-- A ledger may fail to open, and then the command has no connection; the rest is as it stands. -/
def commandAnswers (M : Mode) (c : Console) :
    (op : CommandOp) → Except Exc (CommandAns op) → Console → Prop
  | .gitStatus, r, c' => r = c.git ∧ c' = c
  | .load, r, c' => r = load c.fs c.osEnviron none ∧ c' = c
  | .getpass, r, c' => r = c.passphrase ∧ c' = c.did .asked
  | .signer passphrase, r, c' =>
      r = rootAgentCapabilitySigner c.fs c.osEnviron (.str passphrase) true ∧ c' = c.did .triedKey
  | .connect path, r, c' => (r = .ok () ∧ c' = c.did (.opened path)) ∨ ((∃ e, r = .error e) ∧ c' = c)
  | .disconnect, r, c' => r = .ok () ∧ c' = c.did .closed
  | .print line, r, c' => r = .ok () ∧ c' = c.did (.printed line)
  | .complain line, r, c' => r = .ok () ∧ c' = c.did (.complained line)
  | .publication op, r, c' => ∃ w, answers M c.world op r w ∧ c' = { c with world := w }

end Semantics

/-! ## The rules of the operations -/

section Rules

variable [PyRuntime] [PyBuiltins] [PemKeys] {M : Mode} {c : Console} {I : Console → Prop}

theorem safe_gitStatus {Q : Except Exc (Int × PyStr) → Console → Prop} :
    Proc.Safe (commandAnswers M) I Q gitStatus c ↔ I c ∧ Q c.git c := by
  refine Proc.safe_call.trans ⟨fun h => ⟨h.1, (h.2 _ _ ⟨rfl, rfl⟩).2⟩, fun h => ⟨h.1, ?_⟩⟩
  rintro _ _ ⟨rfl, rfl⟩
  exact h

theorem safe_loadSettings {Q : Except Exc Settings → Console → Prop} :
    Proc.Safe (commandAnswers M) I Q loadSettings c ↔ I c ∧ Q (load c.fs c.osEnviron none) c := by
  refine Proc.safe_call.trans ⟨fun h => ⟨h.1, (h.2 _ _ ⟨rfl, rfl⟩).2⟩, fun h => ⟨h.1, ?_⟩⟩
  rintro _ _ ⟨rfl, rfl⟩
  exact h

theorem safe_getpass {Q : Except Exc PyStr → Console → Prop} :
    Proc.Safe (commandAnswers M) I Q getpass c ↔
      I c ∧ I (c.did .asked) ∧ Q c.passphrase (c.did .asked) := by
  refine Proc.safe_call.trans (and_congr_right fun _ => ⟨fun h => h _ _ ⟨rfl, rfl⟩, fun h => ?_⟩)
  rintro _ _ ⟨rfl, rfl⟩
  exact h

theorem safe_rootSigner {passphrase : PyStr} {Q : Except Exc CapabilitySigner → Console → Prop} :
    Proc.Safe (commandAnswers M) I Q (rootSigner passphrase) c ↔ I c ∧ I (c.did .triedKey) ∧
      Q (rootAgentCapabilitySigner c.fs c.osEnviron (.str passphrase) true) (c.did .triedKey) := by
  refine Proc.safe_call.trans (and_congr_right fun _ => ⟨fun h => h _ _ ⟨rfl, rfl⟩, fun h => ?_⟩)
  rintro _ _ ⟨rfl, rfl⟩
  exact h

theorem safe_connectLedger {path : Path} {Q : Except Exc Unit → Console → Prop} :
    Proc.Safe (commandAnswers M) I Q (connectLedger path) c ↔
      I c ∧ (I (c.did (.opened path)) ∧ Q (.ok ()) (c.did (.opened path))) ∧ ∀ e, Q (.error e) c := by
  refine Proc.safe_call.trans
    ⟨fun h => ⟨h.1, h.2 _ _ (Or.inl ⟨rfl, rfl⟩), fun e => ?_⟩, fun h => ⟨h.1, ?_⟩⟩
  · exact (h.2 _ _ (Or.inr ⟨⟨e, rfl⟩, rfl⟩)).2
  · rintro _ _ (⟨rfl, rfl⟩ | ⟨⟨e, rfl⟩, rfl⟩)
    · exact h.2.1
    · exact ⟨h.1, h.2.2 e⟩

theorem safe_disconnect {Q : Except Exc Unit → Console → Prop} :
    Proc.Safe (commandAnswers M) I Q disconnect c ↔
      I c ∧ I (c.did .closed) ∧ Q (.ok ()) (c.did .closed) := by
  refine Proc.safe_call.trans (and_congr_right fun _ => ⟨fun h => h _ _ ⟨rfl, rfl⟩, fun h => ?_⟩)
  rintro _ _ ⟨rfl, rfl⟩
  exact h

theorem safe_print {line : PyStr} {Q : Except Exc Unit → Console → Prop} :
    Proc.Safe (commandAnswers M) I Q (print line) c ↔
      I c ∧ I (c.did (.printed line)) ∧ Q (.ok ()) (c.did (.printed line)) := by
  refine Proc.safe_call.trans (and_congr_right fun _ => ⟨fun h => h _ _ ⟨rfl, rfl⟩, fun h => ?_⟩)
  rintro _ _ ⟨rfl, rfl⟩
  exact h

theorem safe_refuse {line : String} {Q : Except Exc Int → Console → Prop} (hI : I c)
    (hcomplain : I (c.did (.complained (py line))))
    (hend : Q (.ok EXIT_ERROR) (c.did (.complained (py line)))) :
    Proc.Safe (commandAnswers M) I Q (refuse line) c := by
  unfold refuse
  rw [Proc.safe_bind]
  refine Proc.safe_call.mpr ⟨hI, ?_⟩
  rintro _ _ ⟨rfl, rfl⟩
  exact ⟨hcomplain, hcomplain, hend⟩

omit [PyRuntime] [PyBuiltins] [PemKeys] in
/-- The world, as a part of the console. -/
def worldPart : Proc.Part World Console :=
  ⟨Console.world, fun c w => { c with world := w }, fun _ => rfl, fun _ _ => rfl, fun _ _ _ => rfl⟩

/-- A publication moves the world, and nothing else of the console. -/
theorem safe_publishing {α : Type} {p : Prog α} {Q : Except Exc α → Console → Prop}
    (h : Proc.Safe (answers M) (fun w => I { c with world := w }) (fun r w => Q r { c with world := w }) p
      c.world) : Proc.Safe (commandAnswers M) I Q (publishing p) c := by
  have hsem : ∀ (s : Console) (op : Op) (r : Except Exc (CommandAns (.publication op))) (s' : Console),
      commandAnswers M s (.publication op) r s' →
        ∃ w, answers M (worldPart.get s) op (r.map id) w ∧ s' = worldPart.set s w := by
    rintro s op r s' ⟨w, hw, rfl⟩
    refine ⟨w, ?_, rfl⟩
    cases r with
    | ok a => exact hw
    | error e => exact hw
  exact Proc.safe_embed hsem h

end Rules

/-! ## The publication -/

section Publication

variable [PyRuntime] [PyBuiltins] [Ed25519]

/-- What a publication under `did` does: it signs, its rows are those of the did, and what it sends is the
reviewed text, signed under the did, to the public server. -/
def OfPublication (did : PyStr) : Event → Prop
  | .signed .. => True
  | .appended a _ => a.agentDid = did ∧ a.tcRoom = some FIRST_ANNOUNCEMENT_ROOM
  | .sent url => ∃ (write : SignedWrite) (path : PyStr), write.did = did ∧
      write.room = FIRST_ANNOUNCEMENT_ROOM ∧ write.sweptText = singleLineSweep FIRST_ANNOUNCEMENT_TEXT ∧
      write.verifies = .ok true ∧ write.path = .ok path ∧ url = PUBLIC_BASE_URL ++ path

/-- From `w` to `w'` a publication under `did` was made, or a part of one. -/
structure Published (did : PyStr) (w w' : World) : Prop where
  events : ∃ events, w'.trace = w.trace ++ events ∧ (events.filterMap Event.sent?).length ≤ 1 ∧
    ∀ e ∈ events, OfPublication did e

/-- From `w` to `w'` the publication was completed: something was sent, and the row that says so is in the
ledger. -/
def Completed (w w' : World) (result : AnnouncementPublishResult) : Prop :=
  ∃ (events : List Event) (t url : PyStr), w'.trace = w.trace ++ events ∧ .sent url ∈ events ∧
    let a := resultActivity result.preparation true PUBLISHED (some result.responseHash) result.serverSeq
      none t
    .appended a result.publishRecord ∈ events ∧ Appended.CommittedIn (a, result.publishRecord) w'.db

variable {M : Mode} {capability : CapabilitySigner} {room sha did : PyStr} {confirm : Bool} {w w' : World}

omit [PyRuntime] [PyBuiltins] in
/-- Signatures, rows, a request, more rows. -/
theorem published_of_trace (signed : List Event) (rows results : List Appended) (urls : List PyStr)
    (htrace : w'.trace = w.trace ++ (signed ++ (rows.map Appended.event ++ (urls.map .sent ++
      results.map Appended.event))))
    (hsigned : ∀ e ∈ signed, e.appended? = none ∧ e.sent? = none)
    (hrows : ∀ r ∈ rows ++ results, OfPublication did r.event) (honce : urls.length ≤ 1)
    (hurls : ∀ url ∈ urls, OfPublication did (.sent url)) : Published did w w' := by
  have hquiet : ∀ l : List Event, (∀ e ∈ l, e.sent? = none) → l.filterMap Event.sent? = [] := fun l h =>
    List.filterMap_eq_nil_iff.mpr h
  have hnone : ∀ l : List Appended, (l.map Appended.event).filterMap Event.sent? = [] := by
    intro l
    refine hquiet _ fun e he => ?_
    obtain ⟨r, -, rfl⟩ := List.mem_map.mp he
    rfl
  have hsent : (urls.map Event.sent).filterMap Event.sent? = urls := by
    rw [List.filterMap_map]
    exact List.filterMap_some
  refine ⟨_, htrace, ?_, fun e he => ?_⟩
  · rw [List.filterMap_append, List.filterMap_append, List.filterMap_append,
      hquiet signed fun e he => (hsigned e he).2, hnone, hnone, hsent, List.nil_append, List.nil_append,
      List.append_nil]
    exact honce
  · simp only [List.mem_append, List.mem_map] at he hrows
    rcases he with he | ⟨r, hr, rfl⟩ | ⟨url, hurl, rfl⟩ | ⟨r, hr, rfl⟩
    · obtain ⟨happended, hsent⟩ := hsigned e he
      cases e with
      | signed => trivial
      | appended => cases happended
      | sent => cases hsent
    · exact hrows r (Or.inl hr)
    · exact hurls url hurl
    · exact hrows r (Or.inr hr)

omit [PyRuntime] [PyBuiltins] in
/-- The rows of a proof of the did. -/
theorem ofPublication_fourRows {text : PyStr} {chosen : Int} {proof : AnnouncementProof} {taskId : PyStr}
    {s : ProofStamps} (h : Built capability FIRST_ANNOUNCEMENT_ROOM text chosen proof) :
    ∀ r ∈ fourRows proof taskId s, OfPublication capability.did.did r.event := by
  have hown : ∀ a : Activity, a.agentDid = proof.did → a.tcRoom = some proof.room →
      a.agentDid = capability.did.did ∧ a.tcRoom = some FIRST_ANNOUNCEMENT_ROOM := fun a hdid hroom =>
    ⟨hdid.trans h.did_eq, hroom.trans (congrArg some h.room_eq)⟩
  intro r hr
  simp only [fourRows, List.mem_cons, List.not_mem_nil, or_false] at hr
  rcases hr with rfl | rfl | rfl | rfl
  · exact hown _ rfl rfl
  · exact hown _ rfl rfl
  · exact hown _ rfl rfl
  · exact hown _ rfl rfl

/-- A send that returns went out. -/
theorem urls_of_returned {client : TechnocoreClient} {write : SignedWrite} {gate : Option Nat}
    {response : PyVal} {urls : List PyStr}
    (h : TechnocoreClient.SendExit client write gate w (.ok response) urls) : urls ≠ [] := by
  generalize hr : (Except.ok response : Except Exc PyVal) = r at h
  cases h with
  | sent => exact List.cons_ne_nil _ _
  | unverifiable | unverified | refused | limited | unencodable => cases hr

/-- **The publication** shows only what is its own, and completes if it returns. -/
theorem publication_safe (hM : M.Grows) :
    Proc.Safe (answers M) (Published capability.did.did w)
      (fun r w' => ∀ result, r = .ok result → Completed w w' result)
      (publishFirstAnnouncementOnce capability publicClient room sha confirm) w := by
  have herror : ∀ {e : Exc} {w' : World} (result : AnnouncementPublishResult),
      (Except.error e : Except Exc AnnouncementPublishResult) = .ok result → Completed w w' result := by
    intro e w' result h
    cases h
  have hnone : ∀ {α : Type} {P : α → Prop}, ∀ x ∈ ([] : List α), P x := fun x hx =>
    absurd hx List.not_mem_nil
  refine safe_publishFirstAnnouncementOnce hM ?_ ?_ ?_
  -- stopped before a row was written, stopped among the four rows, prepared
  · intro w' h
    obtain ⟨signed, hsigned, htrace⟩ := h.trace
    refine ⟨published_of_trace signed [] [] [] ?_ hsigned hnone (Nat.zero_le 1) hnone, fun _ _ => herror⟩
    rw [htrace]
    simp
  · intro w₁ w' chosen proof s n h hbuilt ha
    obtain ⟨signed, hsigned, htrace⟩ := h.trace
    refine ⟨published_of_trace signed ((fourRows proof announcementTaskId s).take n) [] [] ?_ hsigned ?_
      (Nat.zero_le 1) hnone, fun _ _ => herror⟩
    · rw [ha.trace, htrace]
      simp
    · intro r hr
      rw [List.append_nil] at hr
      exact ofPublication_fourRows hbuilt r (List.mem_of_mem_take hr)
  intro w₁ w₂ proof s payload object hquiet hfour hp _ w₃
  obtain ⟨chosen, hbuilt⟩ := hp.built
  rw [hp.room_eq] at hbuilt
  obtain ⟨signed, hsigned, htrace⟩ := hquiet.trace
  have hshape : ∀ {urls : List PyStr} {w₄ w' : World} {results : List Appended},
      w₄.trace = w₃.trace ++ urls.map .sent → Added w₄ w' results →
      w'.trace = w.trace ++ (signed ++ ((fourRows proof announcementTaskId s).map Appended.event ++
        (urls.map .sent ++ results.map Appended.event))) := by
    intro urls w₄ w' results hsent hr
    rw [hr.trace, hsent, show w₃.trace = w₂.trace from rfl, hfour.trace, htrace]
    simp only [List.append_assoc]
  have hpublished : ∀ {urls : List PyStr} {w₄ w' : World} {results : List Appended},
      w₄.trace = w₃.trace ++ urls.map .sent → urls.length ≤ 1 →
      (∀ url ∈ urls, OfPublication capability.did.did (.sent url)) → Added w₄ w' results →
      (∀ r ∈ results, IsResultOf proof s r) → Published capability.did.did w w' := by
    intro urls w₄ w' results hsent honce hurls hr hresults
    refine published_of_trace signed (fourRows proof announcementTaskId s) results urls (hshape hsent hr)
      hsigned (fun r hmem => ?_) honce hurls
    rcases List.mem_append.mp hmem with hmem | hmem
    · exact ofPublication_fourRows hbuilt r hmem
    · obtain ⟨delivered, status, hash, seq, error, t, hrow⟩ := hresults r hmem
      show r.1.agentDid = _ ∧ r.1.tcRoom = _
      rw [hrow]
      exact ⟨hbuilt.did_eq, congrArg some hbuilt.room_eq⟩
  have hexit : ∀ {r urls}, TechnocoreClient.SendExit publicClient (proofWrite proof payload)
      (some w₂.gates.length) w₃ r urls → urls.length ≤ 1 ∧
        ∀ url ∈ urls, OfPublication capability.did.did (.sent url) := by
    intro r urls hx
    refine ⟨hx.urls_length, fun url hurl => ?_⟩
    obtain ⟨hv, path, hpath, hurl⟩ := hx.of_mem hurl
    exact ⟨proofWrite proof payload, path, hbuilt.did_eq, hbuilt.room_eq, hbuilt.canonicalText_eq, hv, hpath,
      hurl⟩
  -- after the send there is one row of the result, or none
  have hresult : ∀ {urls : List PyStr} {r w₄ w'} {results : List Appended},
      TechnocoreClient.SendExit publicClient (proofWrite proof payload) (some w₂.gates.length) w₃ r urls →
      TechnocoreClient.SendEnd (some w₂.gates.length) urls w₃ w₄ → Added w₄ w' results →
      (∀ r ∈ results, IsResultOf proof s r) → Published capability.did.did w w' :=
    fun hx hend hr hresults => hpublished hend.trace (hexit hx).1 (hexit hx).2 hr hresults
  refine safe_sendPrepared hM ?_ ?_ ?_ ?_
  · intro w₄ hreach
    rcases hreach.trace with hsame | ⟨r, urls, hx, hsent⟩
    · have hsilent : w₄.trace = w₃.trace ++ ([] : List PyStr).map .sent := by
        rw [hsame, List.map_nil, List.append_nil]
      exact hpublished hsilent (Nat.zero_le 1) hnone (.refl w₄) hnone
    · exact hpublished hsent (hexit hx).1 (hexit hx).2 (.refl w₄) hnone
  · exact fun _ _ _ _ _ _ => herror
  · intro e urls w₄ hx hend _
    exact ⟨fun w' hr => hresult hx hend hr hnone, fun _ _ _ _ _ => herror,
      fun t record w' hr => ⟨hresult hx hend hr isResultOf_singleton, fun _ => herror⟩⟩
  · intro response urls w₄ hx hend
    -- only a send that went out returns
    have hsent : urls ≠ [] := urls_of_returned hx
    refine safe_recordResponse hM (fun w' hr => hresult hx hend hr hnone) (fun _ _ => herror)
      (fun hash _ _ => ⟨fun _ _ _ _ _ => herror,
        fun t record w' hr => ⟨hresult hx hend hr isResultOf_singleton, fun _ => herror⟩⟩)
      fun hash seq _ _ _ => ⟨fun _ _ _ _ _ => herror,
        fun t record w' hr => ⟨hresult hx hend hr isResultOf_singleton, ?_⟩⟩
    rintro result ⟨⟩
    obtain ⟨url, hurl⟩ := List.exists_mem_of_ne_nil _ hsent
    refine ⟨_, t.isoformat, url, hshape hend.trace hr, ?_, ?_, hr.committed _ List.mem_cons_self⟩
    · exact List.mem_append_right _ (List.mem_append_right _ (List.mem_append_left _
        (List.mem_map_of_mem hurl)))
    · exact List.mem_append_right _ (List.mem_append_right _ (List.mem_append_right _ List.mem_cons_self))

end Publication

/-! ## The command as a whole -/

section Whole

variable [PyRuntime] [PyBuiltins] [PemKeys] [Ed25519]

/-- What has to hold before a passphrase is asked for. -/
structure Cleared (args : PublishArgs) (c : Console) (settings : Settings) : Prop where
  confirmed : args.confirmPublicTechnocorePublish = true
  room : args.room = FIRST_ANNOUNCEMENT_ROOM
  hash : args.messageSha256 = FIRST_ANNOUNCEMENT_SHA256
  base : rstripSlashes args.baseUrl = PUBLIC_BASE_URL
  clean : ∃ stdout, c.git = .ok (0, stdout) ∧ strip stdout = []
  loaded : load c.fs c.osEnviron none = .ok settings
  keystore : settings.keystorePath ≠ none

/-- The passphrase that is typed opens the signer. -/
def Unlocked (c : Console) (signer : CapabilitySigner) : Prop :=
  ∃ passphrase handle, c.passphrase = .ok passphrase ∧
    MIN_PASSPHRASE_LEN ≤ (Passphrase.str passphrase).byteLength ∧
    Opens c.fs c.osEnviron (.str passphrase) true none handle ∧
    signer = (ephemeralSigner handle).capability false

/-- Nothing was printed since `c`. -/
def Silent (c c' : Console) : Prop := ∀ line, .printed line ∈ c'.done → .printed line ∈ c.done

/-- How far a command has got: it has done nothing but complain; or it is cleared, and the world is as it
was; or its signer has opened, and a publication under its did is on its way; or that is completed, and
what it prints is the report. -/
inductive Progress (args : PublishArgs) (c c' : Console) : Prop
  | idle (lines : List PyStr) : c'.world = c.world → c'.done = c.done ++ lines.map .complained →
      Progress args c c'
  | cleared {settings} : Cleared args c settings → c'.world = c.world → Silent c c' → Progress args c c'
  | publishing {settings signer} : Cleared args c settings → Unlocked c signer →
      Published signer.did.did c.world c'.world → Silent c c' → Progress args c c'
  | reporting {settings signer result} : Cleared args c settings → Unlocked c signer →
      Published signer.did.did c.world c'.world → Completed c.world c'.world result → Progress args c c'

def Done.opens : Done → Bool
  | .opened _ => true
  | _ => false

def Done.closes : Done → Bool
  | .closed => true
  | _ => false

/-- What was opened since `c` was closed. -/
def Closed (c c' : Console) : Prop :=
  ∃ more, c'.done = c.done ++ more ∧ more.countP Done.opens = more.countP Done.closes

/-- How a command ends: with one of two codes, or an exception; with 0 only if the publication was completed;
and with its ledger closed. -/
structure Ended (c : Console) (r : Except Exc Int) (c' : Console) : Prop where
  code : ∀ code, r = .ok code → code = EXIT_OK ∨ code = EXIT_ERROR
  published : r = .ok EXIT_OK → ∃ signer result, Unlocked c signer ∧
    Published signer.did.did c.world c'.world ∧ Completed c.world c'.world result
  closed : Closed c c'

/-- How the flow ends. -/
def FlowEnded (c : Console) (r : Except Exc (Int ⊕ AnnouncementPublishResult)) (c' : Console) : Prop :=
  Closed c c' ∧ (∀ code, r = .ok (.inl code) → code = EXIT_ERROR) ∧
    ∀ result, r = .ok (.inr result) → ∃ signer, Unlocked c signer ∧
      Published signer.did.did c.world c'.world ∧ Completed c.world c'.world result

variable {M : Mode} {args : PublishArgs} {c c' : Console} {settings : Settings}

omit [Ed25519] in
theorem safe_repoIsClean {I : Console → Prop} {Q : Except Exc Bool → Console → Prop} (hI : I c)
    (hclean : (∃ stdout, c.git = .ok (0, stdout) ∧ strip stdout = []) → Q (.ok true) c)
    (hdirty : Q (.ok false) c) (hraised : ∀ e, Q (.error e) c) :
    Proc.Safe (commandAnswers M) I Q repoIsClean c := by
  unfold repoIsClean
  rw [Proc.safe_handle, safe_gitStatus]
  refine ⟨hI, ?_⟩
  cases hgit : c.git with
  | error e =>
    dsimp only
    rw [Proc.safe_ite]
    exact ⟨fun _ => ⟨hI, hdirty⟩, fun _ => ⟨hI, hraised e⟩⟩
  | ok status =>
    obtain ⟨code, stdout⟩ := status
    refine ⟨hI, ?_⟩
    cases hboth : decide (code = 0) && decide (strip stdout = []) with
    | false => exact hdirty
    | true =>
      rw [Bool.and_eq_true, decide_eq_true_eq, decide_eq_true_eq] at hboth
      exact hclean ⟨stdout, by rw [hgit, hboth.1], hboth.2⟩

omit [Ed25519] in
theorem safe_stopFlow {e : Exc} {I : Console → Prop}
    {Q : Except Exc (Int ⊕ AnnouncementPublishResult) → Console → Prop} (hI : I c)
    (hstopped : ∀ line, I (c.did (.complained line)) ∧
      Q (.ok (.inl EXIT_ERROR)) (c.did (.complained line)))
    (hraised : Q (.error e) c) : Proc.Safe (commandAnswers M) I Q (stopFlow e) c := by
  unfold stopFlow
  rw [Proc.safe_ite]
  refine ⟨fun _ => ?_, fun _ => ⟨hI, hraised⟩⟩
  rw [Proc.safe_bind]
  exact safe_refuse hI (hstopped _).1 (hstopped _)

omit [PyRuntime] [Ed25519] in
theorem unlocked_of_signer {passphrase : PyStr} {signer : CapabilitySigner}
    (hpass : c.passphrase = .ok passphrase)
    (h : rootAgentCapabilitySigner c.fs c.osEnviron (.str passphrase) true = .ok signer) :
    Unlocked c signer := by
  obtain ⟨hlen, handle, hopens, hsigner⟩ := rootAgentCapabilitySigner_eq_ok.mp h
  exact ⟨passphrase, handle, hpass, hlen, hopens, hsigner⟩

omit [PyRuntime] [PyBuiltins] [PemKeys] [Ed25519] in
theorem Silent.did {d : Done} (h : Silent c c') (hd : ∀ line, d ≠ .printed line) : Silent c (c'.did d) := by
  intro line hline
  rcases List.mem_append.mp hline with hline | hline
  · exact h line hline
  · exact absurd (List.mem_singleton.mp hline).symm (hd line)

/-- **The flow**, of a command that is cleared. -/
theorem flow_safe (hM : M.Grows) (hc : Cleared args c settings) :
    Proc.Safe (commandAnswers M) (Progress args c) (FlowEnded c) (publishFlow args settings) c := by
  have hstart : Silent c c := fun _ h => h
  have hasked := hstart.did (d := .asked) nofun
  have htried := hasked.did (d := .triedKey) nofun
  have hopened := htried.did (d := .opened (ledgerPath args settings)) nofun
  have hat : ∀ {c' : Console}, c'.world = c.world → Silent c c' → Progress args c c' := .cleared hc
  have hstop : ∀ {c' : Console} {e : Exc}, Progress args c c' →
      (∀ line, Progress args c (c'.did (.complained line))) → Closed c c' →
      (∀ line, Closed c (c'.did (.complained line))) →
      Proc.Safe (commandAnswers M) (Progress args c) (FlowEnded c) (stopFlow e) c' := by
    intro c' e hI hcomplain hclosed hclosed'
    refine safe_stopFlow hI (fun line => ⟨hcomplain line, hclosed' line, ?_, ?_⟩) ⟨hclosed, ?_, ?_⟩
    · rintro code ⟨⟩
      rfl
    · rintro result ⟨⟩
    · rintro code ⟨⟩
    · rintro result ⟨⟩
  unfold publishFlow
  rw [Proc.safe_handle, Proc.safe_bind, safe_getpass]
  refine ⟨hat rfl hstart, hat rfl hasked, ?_⟩
  cases hpass : c.passphrase with
  | error e =>
    -- nothing was typed
    exact ⟨hat rfl hasked, hstop (hat rfl hasked) (fun _ => hat rfl (hasked.did nofun))
      ⟨[.asked], rfl, rfl⟩ fun line => ⟨[.asked, .complained line], by simp, rfl⟩⟩
  | ok passphrase =>
    dsimp only
    rw [safe_rootSigner]
    refine ⟨hat rfl hasked, hat rfl htried, ?_⟩
    simp only [Console.did_fs, Console.did_osEnviron]
    cases hsigner : rootAgentCapabilitySigner c.fs c.osEnviron (.str passphrase) true with
    | error e =>
      -- what was typed does not open the signer, and the ledger is not touched
      exact hstop (hat rfl htried) (fun _ => hat rfl (htried.did nofun))
        ⟨[.asked, .triedKey], by simp, rfl⟩
        fun line => ⟨[.asked, .triedKey, .complained line], by simp, rfl⟩
    | ok capability =>
      have hunlocked := unlocked_of_signer hpass hsigner
      dsimp only
      rw [Proc.safe_handle, safe_connectLedger]
      refine ⟨hat rfl htried, ⟨hat rfl hopened, ?_⟩, fun e => hstop (hat rfl htried)
        (fun _ => hat rfl (htried.did nofun))
        ⟨[.asked, .triedKey], by simp, rfl⟩
        fun line => ⟨[.asked, .triedKey, .complained line], by simp, rfl⟩⟩
      dsimp only
      -- with the ledger open, every exit passes the `finally` that closes it
      rw [Proc.safe_finally, Proc.safe_handle]
      apply safe_publishing
      refine (publication_safe hM).mono (fun w hw => .publishing hc hunlocked hw hopened) ?_
      intro r w hw hcompleted
      have hmoved : ∀ {c' : Console}, c'.world = w → Silent c c' → Progress args c c' := fun h hs =>
        .publishing hc hunlocked (h ▸ hw) hs
      have hclosed := hopened.did (d := .closed) nofun
      let ledger : Done := .opened (ledgerPath args settings)
      cases r with
      | error e =>
        -- the complaint, if there is one, comes before the ledger is closed
        refine safe_stopFlow (hmoved rfl hopened) (fun line => ?_) ?_
        · have hsaid := hopened.did (d := .complained line) nofun
          have hend := hsaid.did (d := .closed) nofun
          refine ⟨hmoved rfl hsaid, safe_disconnect.mpr ⟨hmoved rfl hsaid, hmoved rfl hend, hmoved rfl hend,
            ⟨[.asked, .triedKey, ledger, .complained line, .closed], by simp [ledger], rfl⟩, ?_, ?_⟩⟩
          · rintro code ⟨⟩
            rfl
          · rintro result ⟨⟩
        · refine safe_disconnect.mpr ⟨hmoved rfl hopened, hmoved rfl hclosed, hmoved rfl hclosed,
            ⟨[.asked, .triedKey, ledger, .closed], by simp [ledger], rfl⟩, ?_, ?_⟩
          · rintro code ⟨⟩
          · rintro result ⟨⟩
      | ok result =>
        refine ⟨hmoved rfl hopened, safe_disconnect.mpr ⟨hmoved rfl hopened, hmoved rfl hclosed,
          hmoved rfl hclosed, ⟨[.asked, .triedKey, ledger, .closed], by simp [ledger], rfl⟩, ?_, ?_⟩⟩
        · rintro code ⟨⟩
        · rintro published ⟨⟩
          exact ⟨capability, hunlocked, hw, hcompleted result rfl⟩

omit [PyRuntime] [PyBuiltins] [PemKeys] [Ed25519] in
theorem Closed.printed {line : PyStr} (h : Closed c c') : Closed c (c'.did (.printed line)) := by
  obtain ⟨more, hdone, hcount⟩ := h
  refine ⟨more ++ [.printed line], ?_, ?_⟩
  · rw [Console.did, hdone, List.append_assoc]
  · rw [List.countP_append, List.countP_append, hcount]
    rfl

omit [Ed25519] in
/-- A line, and the rest. -/
theorem safe_line {α : Type} {line : PyStr} {p : CommandProg α} {I : Console → Prop}
    {Q : Except Exc α → Console → Prop} (hprint : ∀ c line, I c → I (c.did (.printed line)))
    (h : ∀ c, I c → Proc.Safe (commandAnswers M) I Q p c) (hI : I c) :
    Proc.Safe (commandAnswers M) I Q (print line >>= fun _ => p) c := by
  rw [Proc.safe_bind, safe_print]
  exact ⟨hI, hprint c line hI, h _ (hprint c line hI)⟩

omit [Ed25519] in
/-- A report prints, and ends with 0 if it ends. -/
theorem safe_reportPublished {result : AnnouncementPublishResult} {I : Console → Prop}
    {Q : Except Exc Int → Console → Prop} (hprint : ∀ c line, I c → I (c.did (.printed line)))
    (hdone : ∀ c, I c → Q (.ok EXIT_OK) c) (hraised : ∀ e c, I c → Q (.error e) c) (hI : I c) :
    Proc.Safe (commandAnswers M) I Q (reportPublished result) c := by
  unfold reportPublished
  refine safe_line hprint (fun c hI => ?_) hI
  refine safe_line hprint (fun c hI => ?_) hI
  refine safe_line hprint (fun c hI => ?_) hI
  refine safe_line hprint (fun c hI => ?_) hI
  refine safe_line hprint (fun c hI => ?_) hI
  refine safe_line hprint (fun c hI => ?_) hI
  rw [Proc.safe_bind, Proc.safe_lift]
  refine ⟨hI, ?_⟩
  cases seqText result.serverSeq with
  | error e => exact ⟨hI, hraised e c hI⟩
  | ok seq =>
    refine safe_line hprint (fun c hI => ?_) hI
    exact safe_line hprint (fun c hI => ⟨hI, hdone c hI⟩) hI

theorem command_safe (hM : M.Grows) :
    Proc.Safe (commandAnswers M) (Progress args c) (Ended c) (cmdPublish args) c := by
  have hidle : Progress args c c := .idle [] rfl (List.append_nil _).symm
  have hnone : Closed c c := ⟨[], (List.append_nil _).symm, rfl⟩
  have hrefuse : ∀ line, Proc.Safe (commandAnswers M) (Progress args c) (Ended c) (refuse line) c := by
    intro line
    refine safe_refuse hidle (.idle [py line] rfl rfl) ⟨?_, ?_, [.complained (py line)], rfl, rfl⟩
    · rintro code ⟨⟩
      exact Or.inr rfl
    · intro h
      exact absurd (Except.ok.inj h) (by decide)
  have hraised : ∀ e, Progress args c c ∧ Ended c (.error e) c := fun e => ⟨hidle, nofun, nofun, hnone⟩
  unfold cmdPublish
  -- the guards, in the order of the source; what each refuses is refused at the start
  rw [Proc.safe_ite]
  refine ⟨fun _ => hrefuse _, fun hconfirmed => ?_⟩
  rw [Proc.safe_ite]
  refine ⟨fun _ => hrefuse _, fun hroom => ?_⟩
  rw [Proc.safe_ite]
  refine ⟨fun _ => hrefuse _, fun hhash => ?_⟩
  rw [Proc.safe_ite]
  refine ⟨fun _ => hrefuse _, fun hbase => ?_⟩
  rw [Proc.safe_bind]
  refine safe_repoIsClean hidle (fun hclean => ?_) (hrefuse _) hraised
  show Proc.Safe _ _ _ (loadSettings.handle _) c
  rw [Proc.safe_handle, safe_loadSettings]
  refine ⟨hidle, ?_⟩
  cases hload : load c.fs c.osEnviron none with
  | error e =>
    dsimp only
    rw [Proc.safe_ite]
    exact ⟨fun _ => hrefuse _, fun _ => hraised e⟩
  | ok settings =>
    dsimp only
    rw [Proc.safe_ite]
    refine ⟨fun _ => hrefuse _, fun hkeystore => ?_⟩
    rw [Bool.not_eq_true', Bool.not_eq_false] at hconfirmed
    have hc : Cleared args c settings := ⟨hconfirmed, not_not.mp hroom, not_not.mp hhash, not_not.mp hbase,
      hclean, hload, hkeystore⟩
    rw [Proc.safe_bind]
    refine (flow_safe hM hc).mono (fun _ h => h) ?_
    rintro (e | code | result) c₁ hI ⟨hclosed, hcode, hresult⟩
    -- an exception, an exit code of the handler, a result
    · exact ⟨hI, nofun, nofun, hclosed⟩
    · refine ⟨hI, ?_, ?_, hclosed⟩
      · rintro _ ⟨⟩
        exact Or.inr (hcode code rfl)
      · intro h
        rw [hcode code rfl] at h
        exact absurd (Except.ok.inj h) (by decide)
    · obtain ⟨signer, hunlocked, hpublished, hcompleted⟩ := hresult result rfl
      -- the report only prints, so the world stays that of the publication
      let J (c' : Console) : Prop := c'.world = c₁.world ∧ Closed c c'
      have hreport : Proc.Safe (commandAnswers M) J (Ended c) (reportPublished result) c₁ := by
        refine safe_reportPublished (fun c' line h => ⟨h.1, h.2.printed⟩) ?_ ?_ ⟨rfl, hclosed⟩
        · intro c' h
          refine ⟨?_, fun _ => ⟨signer, result, hunlocked, h.1 ▸ hpublished, h.1 ▸ hcompleted⟩, h.2⟩
          rintro _ ⟨⟩
          exact Or.inl rfl
        · exact fun e c' h => ⟨nofun, nofun, h.2⟩
      exact hreport.mono (fun c' h => .reporting hc hunlocked (h.1 ▸ hpublished) (h.1 ▸ hcompleted))
        fun _ _ _ h => h

/-- **The command**, wherever it is cut: before every check has passed it has only complained; only an opened
signer publishes, once, and only the reviewed text under its own did; nothing is printed before that is in
the ledger. It ends with 0 only then, and with what it opened closed. -/
theorem publish_command (hM : M.Grows) {p : CommandProg Int}
    (h : Proc.Steps (commandAnswers M) (cmdPublish args) c p c') :
    Progress args c c' ∧ ∀ r, p = Proc.lift r → Ended c r c' := by
  have hcommand : Proc.Safe (commandAnswers M) (Progress args c) (Ended c) (cmdPublish args) c :=
    command_safe hM
  have hsafe := hcommand.steps h
  refine ⟨hsafe.inv, ?_⟩
  rintro r rfl
  exact (Proc.safe_lift.mp hsafe).2

end Whole

/-! ## A command that goes through -/

section Run

variable [PyRuntime] [PyBuiltins] [PemKeys] [Ed25519] {M : Mode} {args : PublishArgs} {c : Console}
  {settings : Settings}

omit [Ed25519] in
theorem exec_repoIsClean (h : ∃ stdout, c.git = .ok (0, stdout) ∧ strip stdout = []) :
    Proc.Exec (commandAnswers M) repoIsClean c (.ok true) c := by
  obtain ⟨stdout, hgit, hempty⟩ := h
  have hstatus : Proc.Exec (commandAnswers M) gitStatus c (.ok (0, stdout)) c :=
    Proc.exec_call ⟨hgit.symm, rfl⟩
  refine hstatus.handle ?_
  simp only [hempty, decide_true, Bool.and_self]
  exact .refl

omit [Ed25519] in
/-- One line, and the rest. -/
theorem exec_line {α : Type} (line : PyStr) {p : CommandProg α} {r : Except Exc α}
    (h : ∀ c, ∃ c', c'.world = c.world ∧ Proc.Exec (commandAnswers M) p c r c') (c : Console) :
    ∃ c', c'.world = c.world ∧ Proc.Exec (commandAnswers M) (do print line; p) c r c' := by
  have hprint : Proc.Exec (commandAnswers M) (print line) c (.ok ()) (c.did (.printed line)) :=
    Proc.exec_call ⟨rfl, rfl⟩
  obtain ⟨c', hworld, hrest⟩ := h (c.did (.printed line))
  exact ⟨c', hworld, hprint.bind hrest⟩

omit [Ed25519] in
theorem exec_reportPublished {result : AnnouncementPublishResult} {seq : PyStr}
    (h : seqText result.serverSeq = .ok seq) (c : Console) : ∃ c', c'.world = c.world ∧
      Proc.Exec (commandAnswers M) (reportPublished result) c (.ok EXIT_OK) c' := by
  unfold reportPublished
  refine exec_line _ (exec_line _ (exec_line _ (exec_line _ (exec_line _ (exec_line _ fun c => ?_))))) c
  rw [h]
  have hdone : ∀ c, ∃ c', c'.world = c.world ∧
      Proc.Exec (commandAnswers M) (pure EXIT_OK : CommandProg Int) c (.ok EXIT_OK) c' :=
    fun c => ⟨c, rfl, .refl⟩
  obtain ⟨c', hworld, hrest⟩ :=
    exec_line (py "server seq: " ++ seq) (exec_line (py "status: PUBLISHED") hdone) c
  exact ⟨c', hworld, Proc.exec_lift.bind hrest⟩

/-- The flow goes through if the signer opens and the publication returns. -/
theorem exec_publishFlow (settings : Settings) {passphrase : PyStr} {signer : CapabilitySigner}
    {result : AnnouncementPublishResult} {w' : World} (hpass : c.passphrase = .ok passphrase)
    (hsigner : rootAgentCapabilitySigner c.fs c.osEnviron (.str passphrase) true = .ok signer)
    (hpublish : Proc.Exec (answers M)
      (publishFirstAnnouncementOnce signer publicClient args.room args.messageSha256 true) c.world
      (.ok result) w') :
    ∃ c', c'.world = w' ∧ Proc.Exec (commandAnswers M) (publishFlow args settings) c (.ok (.inr result)) c' := by
  have hasked : Proc.Exec (commandAnswers M) getpass c (.ok passphrase) (c.did .asked) :=
    Proc.exec_call ⟨hpass.symm, rfl⟩
  have hopened : Proc.Exec (commandAnswers M) (rootSigner passphrase) (c.did .asked) (.ok signer)
      ((c.did .asked).did .triedKey) := Proc.exec_call ⟨hsigner.symm, rfl⟩
  let c₁ := ((c.did .asked).did .triedKey).did (.opened (ledgerPath args settings))
  have hledger : Proc.Exec (commandAnswers M) (connectLedger (ledgerPath args settings))
      ((c.did .asked).did .triedKey) (.ok ()) c₁ := Proc.exec_call (Or.inl ⟨rfl, rfl⟩)
  have hpublishing : Proc.Exec (commandAnswers M)
      (publishing (publishFirstAnnouncementOnce signer publicClient args.room args.messageSha256 true)) c₁
      (.ok result) { c₁ with world := w' } := by
    have hsem : ∀ (s : Console) (op : Op) (r : Except Exc (Ans op)) (w : World),
        answers M (worldPart.get s) op r w →
          ∃ r' : Except Exc (CommandAns (.publication op)), r'.map id = r ∧
            commandAnswers M s (.publication op) r' (worldPart.set s w) := by
      intro s op r w hop
      refine ⟨r, ?_, w, hop, rfl⟩
      cases r <;> rfl
    have hrun : Proc.Exec (answers M) _ (worldPart.get c₁) (.ok result) w' := hpublish
    exact hrun.embed hsem
  have hclosed : Proc.Exec (commandAnswers M) disconnect { c₁ with world := w' } (.ok ())
      (Console.did { c₁ with world := w' } .closed) := Proc.exec_call ⟨rfl, rfl⟩
  exact ⟨_, rfl, (hasked.bind hopened).handle
    (hledger.handle (Proc.Exec.finally_ok (hpublishing.handle .refl) hclosed))⟩

/-- **A command that is cleared**, whose signer opens and whose publication returns, ends with 0. -/
theorem exec_cmdPublish {passphrase seq : PyStr} {signer : CapabilitySigner}
    {result : AnnouncementPublishResult} {w' : World} (hc : Cleared args c settings)
    (hpass : c.passphrase = .ok passphrase)
    (hsigner : rootAgentCapabilitySigner c.fs c.osEnviron (.str passphrase) true = .ok signer)
    (hpublish : Proc.Exec (answers M) (publishFirstAnnouncementOnce signer publicClient
      FIRST_ANNOUNCEMENT_ROOM FIRST_ANNOUNCEMENT_SHA256 true) c.world (.ok result) w')
    (hseq : seqText result.serverSeq = .ok seq) :
    ∃ c', c'.world = w' ∧ Proc.Exec (commandAnswers M) (cmdPublish args) c (.ok EXIT_OK) c' := by
  rw [← hc.room, ← hc.hash] at hpublish
  have hloaded : Proc.Exec (commandAnswers M) loadSettings c (.ok settings) c :=
    Proc.exec_call ⟨hc.loaded.symm, rfl⟩
  obtain ⟨c₁, hworld₁, hflow⟩ := exec_publishFlow settings hpass hsigner hpublish
  obtain ⟨c₂, hworld₂, hreport⟩ := exec_reportPublished hseq c₁
  refine ⟨c₂, hworld₂.trans hworld₁, ?_⟩
  unfold cmdPublish
  rw [hc.confirmed, if_neg (by decide), if_neg (not_not.mpr hc.room), if_neg (not_not.mpr hc.hash),
    if_neg (not_not.mpr hc.base)]
  refine (exec_repoIsClean hc.clean).bind (hloaded.handle ?_)
  dsimp only
  rw [if_neg hc.keystore]
  exact hflow.bind hreport

end Run

section Sample

@[reducible] def lobbyPem : PemKeys := pemOf zeroHandle

attribute [local instance] asciiRuntime asciiBuiltins acceptAll lobbyPem

theorem zeroHandle_did : zeroHandle.did.did = lobbySigner.did.did := by
  have hkey : decodeDidKey lobbySigner.did.did = .ok zeroHandle.publicKey := by decide +kernel
  have hdid := decodeDidKey_iff_encodeDidKey.mp hkey
  rw [zeroHandle.encode_did] at hdid
  exact Except.ok.inj hdid

theorem zeroHandle_capability : (ephemeralSigner zeroHandle).capability false = lobbySigner := by
  have hsign : encodeSignature (List.replicate 64 0) = .ok (List.replicate 86 (cp 'A')) := by decide +kernel
  have hdid : zeroHandle.did = lobbySigner.did := by
    have hread := DidKey.ofStr_eq_ok.mpr zeroHandle_did
    rw [DidKey.ofStr_eq_ok.mpr (rfl : lobbySigner.did.did = _)] at hread
    exact (Except.ok.inj hread).symm
  unfold Signer.capability ephemeralSigner
  rw [hdid, show (fun payload => encodeSignature (zeroHandle.rawSign payload)) = lobbySigner.sign from
    funext fun _ => hsign]
  rfl

/-- The arguments of a publication. -/
def publishArgs : PublishArgs :=
  ⟨PUBLIC_BASE_URL, FIRST_ANNOUNCEMENT_ROOM, FIRST_ANNOUNCEMENT_SHA256, none, true⟩

/-- The key file is configured, and the did of its key. -/
def lobbyEnviron : Environ :=
  (ENV_OVERRIDE, lobbySigner.did.did) :: keyEnviron

/-- A console in front of the key file. -/
def keyConsole : Console := ⟨boolWorld, keyFiles, lobbyEnviron, .ok (0, []), .ok sixLetters, []⟩

theorem publish_command_published : ∃ c',
    Proc.Exec (commandAnswers calmMode) (cmdPublish publishArgs) keyConsole (.ok EXIT_OK) c' ∧
      Progress publishArgs keyConsole c' ∧ Ended keyConsole (.ok EXIT_OK) c' := by
  have hoverride : strip (orDefault (lobbyEnviron.get ENV_OVERRIDE) []) = lobbySigner.did.did := by
    decide +kernel
  have hidentity : rootIdentity lobbyEnviron = .ok (lobbySigner.did, .environment) := by
    unfold rootIdentity
    rw [hoverride, if_neg (by decide +kernel), DidKey.ofStr_eq_ok.mpr (rfl : lobbySigner.did.did = _)]
  have hclean : rejectSecretEnv lobbyEnviron = .ok () := raiseIf_eq_ok.mpr (by decide +kernel)
  have hkeystore : configuredKeystore keyFiles lobbyEnviron = .ok (some keyFile) :=
    configuredKeystore_eq_some.mpr ⟨py "/keys/root.pem", by decide +kernel, by decide, by decide, by decide⟩
  obtain ⟨settings, hloaded, -, hpath⟩ : ∃ settings, load keyFiles lobbyEnviron none = .ok settings ∧
      settings.rootAgentDid = lobbySigner.did ∧ settings.keystorePath = some keyFile :=
    load_eq_ok.mpr ⟨fun _ => hclean, ⟨.environment, hidentity⟩, hkeystore⟩
  have hcleared : Cleared publishArgs keyConsole settings :=
    ⟨rfl, rfl, rfl, by decide, ⟨[], rfl, rfl⟩, hloaded, by rw [hpath]; exact Option.some_ne_none keyFile⟩
  have hsigner : rootAgentCapabilitySigner keyFiles lobbyEnviron (.str sixLetters) true = .ok lobbySigner := by
    rw [← zeroHandle_capability]
    exact rootAgentCapabilitySigner_eq_ok.mpr ⟨sixLetters_long, zeroHandle,
      opens_of_keyFile (fun _ => hclean) (by decide +kernel) ⟨_, _, hidentity, zeroHandle_did⟩, rfl⟩
  obtain ⟨_, result, w', hpublish, hseq, -⟩ := bool_published
  have htext : seqText result.serverSeq = .ok (py "True") := by
    rw [hseq]
    rfl
  obtain ⟨c', -, hexec⟩ := exec_cmdPublish hcleared rfl hsigner hpublish htext
  obtain ⟨hprogress, hended⟩ := publish_command calmMode_grows hexec
  exact ⟨c', hexec, hprogress, hended _ rfl⟩

end Sample

end FlopOffice.Cli
