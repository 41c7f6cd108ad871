/-
# FlopOffice.Storage.Migrations — `apply_migrations`, on any number of connections.

A call creates the bookkeeping table by a statement of its own, and then reads the last version and
applies what is newer in one transaction. The two are separate calls of the transaction machine, so that
anything may happen between them.

`executed` records the migration statements that are behind the schema (`Applied.schema`). Every
transaction that returns leaves it at the statements of a prefix of the list, in their order
(`applyBlock_run`); transactions serialise, and so does every interleaving (`migrations_exactly_once`).
What SQLite makes of one statement is a parameter.
-/
import FlopOffice.Lib.Transaction
import FlopOffice.Storage.Db

namespace FlopOffice.Storage

open FlopOffice.Lib FlopOffice.Python

/-- One entry of `MIGRATIONS`. -/
structure Migration (Sql : Type) where
  version : Int
  statements : List Sql

/-- The rows of `schema_migrations` (`none` before the table exists), the schema, and the migration
statements that were executed to get there. -/
structure Migrated (Sql Schema : Type) where
  versions : Option (List Int)
  schema : Schema
  executed : List Sql

section Migrations

variable {Sql Schema : Type} (exec : Sql → Schema → Except Exc Schema)

/-! ## Statements -/

/-- `CREATE TABLE IF NOT EXISTS schema_migrations (...)`. -/
def createMigrations (s : Migrated Sql Schema) : Except Exc (Int × Migrated Sql Schema) :=
  .ok (0, { s with versions := some (s.versions.getD []) })

/-- `SELECT MAX(version) AS v FROM schema_migrations`, and `row["v"] or 0`. -/
def selectMax (s : Migrated Sql Schema) : Except Exc (Int × Migrated Sql Schema) :=
  match s.versions with
  | some versions => .ok (versions.max?.getD 0, s)
  | none => .error ⟨.databaseError, []⟩

/-- One statement of a migration. -/
def executeStatement (statement : Sql) (s : Migrated Sql Schema) :
    Except Exc (Unit × Migrated Sql Schema) :=
  (exec statement s.schema).map fun schema =>
    ((), { s with schema, executed := s.executed ++ [statement] })

/-- `INSERT INTO schema_migrations(version, applied_at) VALUES (?, datetime('now'))`. -/
def insertVersion (version : Int) (s : Migrated Sql Schema) :
    Except Exc (Unit × Migrated Sql Schema) := do
  let _ ← bindValue (.int version)
  match s.versions with
  | some versions =>
    if version ∈ versions then throw ⟨.databaseError, []⟩
    else pure ((), { s with versions := some (versions ++ [version]) })
  | none => throw ⟨.databaseError, []⟩

/-! ## `apply_migrations` -/

/-- `for statement in statements`. -/
def executeStatements : List Sql → Block (Migrated Sql Schema) Exc Unit
  | [] => pure ()
  | statement :: rest => do
    Block.stmt (executeStatement exec statement)
    executeStatements rest

/-- `for version, statements in MIGRATIONS`. -/
def applyLoop (current : Int) : List (Migration Sql) → Block (Migrated Sql Schema) Exc Int
  | [] => pure current
  | m :: rest =>
    if m.version ≤ current then applyLoop current rest
    else do
      executeStatements exec m.statements
      Block.stmt (insertVersion m.version)
      applyLoop m.version rest

/-- The transaction of `apply_migrations`. -/
def applyBlock (migrations : List (Migration Sql)) : Block (Migrated Sql Schema) Exc Int := do
  let current ← Block.stmt selectMax
  applyLoop exec current migrations

/-- The `MIGRATIONS` of a release: as much of the final list as there was then. -/
abbrev Release (all : List (Migration Sql)) := { migrations : List (Migration Sql) // migrations <+: all }

/-- The statements and transactions that openers of the database run. -/
inductive MigrationCall (all : List (Migration Sql))
  | create
  | apply (release : Release all)

/-- What a call runs. -/
def MigrationCall.prog {all : List (Migration Sql)} :
    MigrationCall all → Except Exc (Block (Migrated Sql Schema) Exc Int)
  | .create => .ok (Block.stmt createMigrations)
  | .apply release => .ok (applyBlock exec release.1)

/-! ## What is applied -/

/-- Versions are positive and increase. -/
structure Increasing (all : List (Migration Sql)) : Prop where
  positive : ∀ m ∈ all, 0 < m.version
  increasing : all.Pairwise fun m m' => m.version < m'.version

/-- Exactly the migrations `done` have been applied: their versions are recorded, and their statements
were executed, in order, and made the schema. -/
structure Applied (schema₀ : Schema) (done : List (Migration Sql)) (s : Migrated Sql Schema) : Prop where
  versions : s.versions.getD [] = done.map Migration.version
  executed : s.executed = done.flatMap Migration.statements
  schema : s.executed.foldlM (fun schema statement => exec statement schema) schema₀ = .ok s.schema

variable {exec} {schema₀ : Schema} {all done : List (Migration Sql)} {s s' : Migrated Sql Schema}

omit exec in
theorem Increasing.of_prefix (h : Increasing all) {ms : List (Migration Sql)} (hms : ms <+: all) :
    Increasing ms :=
  ⟨fun m hm => h.positive m (hms.subset hm), h.increasing.sublist hms.sublist⟩

omit exec in
/-- The last version that is recorded is the largest. -/
theorem le_max_version {versions : List Int} {v : Int} (h : v ∈ versions) :
    v ≤ versions.max?.getD 0 := by
  cases hmax : versions.max? with
  | none =>
    rw [List.max?_eq_none_iff.mp hmax] at h
    cases h
  | some w => exact (List.max?_eq_some_iff.mp hmax).2 v h

omit exec in
theorem max_version_lt {versions : List Int} {v : Int} (hpos : 0 < v) (h : ∀ w ∈ versions, w < v) :
    versions.max?.getD 0 < v := by
  cases hmax : versions.max? with
  | none => exact hpos
  | some w => exact h w (List.max?_eq_some_iff.mp hmax).1

omit exec in
theorem insertVersion_eq_ok {v : Int} (h : insertVersion v s = .ok ((), s')) :
    s' = { s with versions := some (s.versions.getD [] ++ [v]) } := by
  obtain ⟨_, -, h⟩ := bind_eq_ok.mp h
  cases hv : s.versions with
  | none =>
    rw [hv] at h
    cases h
  | some versions =>
    rw [hv] at h
    dsimp only at h
    split at h
    · cases h
    · cases h
      rfl

/-- The statements of one migration: each is executed, and nothing is recorded. -/
theorem executeStatements_run {statements : List Sql}
    (h : (executeStatements exec statements).run s = .ok ((), s')) :
    s'.versions = s.versions ∧ s'.executed = s.executed ++ statements ∧
      statements.foldlM (fun schema statement => exec statement schema) s.schema = .ok s'.schema := by
  induction statements generalizing s with
  | nil =>
    cases h
    exact ⟨rfl, (List.append_nil _).symm, rfl⟩
  | cons statement rest ih =>
    obtain ⟨_, s₁, hfirst, hrest⟩ := Block.run_bind_eq_ok h
    rw [Block.run_stmt] at hfirst
    obtain ⟨schema, hschema, heq⟩ := map_eq_ok.mp hfirst
    cases heq
    obtain ⟨hv, he, hs⟩ := ih hrest
    refine ⟨hv, ?_, ?_⟩
    · rw [he, List.append_assoc]
      rfl
    · rw [List.foldlM_cons, hschema]
      exact hs

/-- What is not newer is passed over. -/
theorem applyLoop_skip {current : Int} {ms rest : List (Migration Sql)}
    (h : ∀ m ∈ ms, m.version ≤ current) :
    applyLoop exec current (ms ++ rest) = applyLoop exec current rest := by
  induction ms with
  | nil => rfl
  | cons m ms ih =>
    rw [List.cons_append, applyLoop, if_pos (h m List.mem_cons_self),
      ih fun m' hm' => h m' (List.mem_cons_of_mem _ hm')]

/-- What is newer is applied, one migration after the other. -/
theorem applyLoop_run {current v : Int} {rest : List (Migration Sql)} (hdone : Applied exec schema₀ done s)
    (hnew : ∀ m ∈ rest, current < m.version)
    (hinc : rest.Pairwise fun m m' => m.version < m'.version)
    (h : (applyLoop exec current rest).run s = .ok (v, s')) :
    Applied exec schema₀ (done ++ rest) s' ∧ (s.versions.isSome → s'.versions.isSome) := by
  induction rest generalizing done current s with
  | nil =>
    cases h
    rw [List.append_nil]
    exact ⟨hdone, id⟩
  | cons m rest ih =>
    rw [applyLoop, if_neg (Int.not_le.mpr (hnew m List.mem_cons_self))] at h
    obtain ⟨_, s₁, hexec, h⟩ := Block.run_bind_eq_ok h
    obtain ⟨_, s₂, hinsert, hloop⟩ := Block.run_bind_eq_ok h
    rw [Block.run_stmt] at hinsert
    obtain ⟨hversions, hexecuted, hschema⟩ := executeStatements_run hexec
    have hs₂ := insertVersion_eq_ok hinsert
    have hnext : Applied exec schema₀ (done ++ [m]) s₂ := by
      rw [hs₂]
      refine ⟨?_, ?_, ?_⟩
      · show s₁.versions.getD [] ++ [m.version] = _
        rw [hversions, hdone.versions, List.map_append]
        rfl
      · show s₁.executed = _
        rw [hexecuted, hdone.executed, List.flatMap_append, List.flatMap_singleton]
      · show List.foldlM _ schema₀ s₁.executed = Except.ok s₁.schema
        rw [hexecuted, List.foldlM_append, hdone.schema]
        exact hschema
    obtain ⟨hm, hrest⟩ := List.pairwise_cons.mp hinc
    obtain ⟨hall, hsome⟩ := ih hnext hm hrest hloop
    rw [List.append_assoc] at hall
    refine ⟨hall, fun _ => hsome ?_⟩
    rw [hs₂]
    rfl

/-- **What a transaction of `apply_migrations` does**: where its release is applied, nothing; where
some of it is, the rest. -/
theorem applyBlock_run (hall : Increasing all) {ms : List (Migration Sql)} (hms : ms <+: all)
    (hdone : Applied exec schema₀ done s) (hlisted : done <+: all) {v : Int}
    (h : (applyBlock exec ms).run s = .ok (v, s')) :
    s'.versions.isSome ∧ ((ms <+: done ∧ s' = s) ∨ (done <+: ms ∧ Applied exec schema₀ ms s')) := by
  obtain ⟨current, s₁, hselect, hloop⟩ := Block.run_bind_eq_ok h
  rw [Block.run_stmt, selectMax] at hselect
  split at hselect
  case h_2 => cases hselect
  rename_i versions hversions
  cases hselect
  have hrecorded : versions = done.map Migration.version := by
    have hv := hdone.versions
    rwa [hversions] at hv
  have hold : ∀ m ∈ done, m.version ≤ versions.max?.getD 0 := fun m hm =>
    le_max_version (hrecorded ▸ List.mem_map_of_mem hm)
  rcases List.prefix_or_prefix_of_prefix hms hlisted with hle | ⟨rest, rfl⟩
  · -- nothing of the release is newer
    have hskip : applyLoop exec (versions.max?.getD 0) (ms ++ []) =
        applyLoop exec (versions.max?.getD 0) [] :=
      applyLoop_skip fun m hm => hold m (hle.subset hm)
    rw [List.append_nil] at hskip
    rw [hskip] at hloop
    cases hloop
    exact ⟨by rw [hversions]; rfl, Or.inl ⟨hle, rfl⟩⟩
  · have hinc := hall.of_prefix hms
    have hsplit := List.pairwise_append.mp hinc.increasing
    have hnew : ∀ m ∈ rest, versions.max?.getD 0 < m.version := by
      intro m hm
      refine max_version_lt (hinc.positive m (List.mem_append_right _ hm)) fun w hw => ?_
      rw [hrecorded] at hw
      obtain ⟨m', hm', rfl⟩ := List.mem_map.mp hw
      exact hsplit.2.2 m' hm' m hm
    rw [applyLoop_skip hold] at hloop
    obtain ⟨happlied, hsome⟩ := applyLoop_run hdone hnew hsplit.2.1 hloop
    exact ⟨hsome (by rw [hversions]; rfl), Or.inr ⟨List.prefix_append _ _, happlied⟩⟩

/-- A transaction of a release that is applied changes nothing. -/
theorem applyBlock_of_applied (hdone : Applied exec schema₀ done s) (hsome : s.versions.isSome)
    {ms : List (Migration Sql)} (hms : ms <+: done) :
    ∃ v, (applyBlock exec ms).run s = .ok (v, s) := by
  obtain ⟨versions, hversions⟩ := Option.isSome_iff_exists.mp hsome
  have hrecorded : versions = done.map Migration.version := by
    have hv := hdone.versions
    rwa [hversions] at hv
  have hskip : applyLoop exec (versions.max?.getD 0) (ms ++ []) =
      applyLoop exec (versions.max?.getD 0) [] :=
    applyLoop_skip fun m hm => le_max_version (hrecorded ▸ List.mem_map_of_mem (hms.subset hm))
  rw [List.append_nil] at hskip
  refine ⟨versions.max?.getD 0, ?_⟩
  unfold applyBlock
  rw [Block.run_bind, Block.run_stmt, selectMax, hversions]
  show (applyLoop exec _ ms).run s = _
  rw [hskip]
  rfl

/-! ## Runs -/

/-- What holds between transactions. -/
theorem serial_applied (hall : Increasing all) {log : List (MigrationCall all × Int)}
    (h : Serial (MigrationCall.prog exec) ⟨none, schema₀, []⟩ log s) :
    ∃ done, done <+: all ∧ Applied exec schema₀ done s ∧
      ∀ release v, (.apply release, v) ∈ log → release.1 <+: done ∧ s.versions.isSome := by
  induction h with
  | nil => exact ⟨[], List.nil_prefix, ⟨rfl, rfl, rfl⟩, fun _ _ h => absurd h List.not_mem_nil⟩
  | @snoc log s k b v s' _ hk hrun ih =>
    obtain ⟨done, hlisted, hdone, hlog⟩ := ih
    cases k with
    | create =>
      cases hk
      rw [Block.run_stmt] at hrun
      cases hrun
      refine ⟨done, hlisted, ⟨hdone.versions, hdone.executed, hdone.schema⟩, fun release v' h => ?_⟩
      rcases List.mem_append.mp h with h | h
      · exact ⟨(hlog release v' h).1, rfl⟩
      · cases List.mem_singleton.mp h
    | apply release =>
      cases hk
      obtain ⟨hsome, ⟨hle, rfl⟩ | ⟨hle, happlied⟩⟩ := applyBlock_run hall release.2 hdone hlisted hrun
      · refine ⟨done, hlisted, hdone, fun release' v' h => ?_⟩
        rcases List.mem_append.mp h with h | h
        · exact hlog release' v' h
        · cases List.mem_singleton.mp h
          exact ⟨hle, hsome⟩
      · refine ⟨release.1, release.2, happlied, fun release' v' h => ?_⟩
        rcases List.mem_append.mp h with h | h
        · exact ⟨(hlog release' v' h).1.trans hle, hsome⟩
        · cases List.mem_singleton.mp h
          exact ⟨List.prefix_refl _, hsome⟩

/-- **Migrations are applied exactly once.** In every run of any number of openers, of any releases, each
given up anywhere: once a call has returned, every version of its release is recorded once, the
statements that were executed are those of a prefix of the list that holds its release, each once and in
order, and made the schema; a further call returns and changes nothing. A transaction that is given up
leaves everything as it was when it began. -/
theorem migrations_exactly_once {Conn : Type} [DecidableEq Conn] (hall : Increasing all)
    {evs : List (Event Conn Exc Int (MigrationCall all))}
    {m : Machine Conn (Migrated Sql Schema) Exc Int (MigrationCall all)}
    (hrun : Run (MigrationCall.prog exec) (Machine.start ⟨none, schema₀, []⟩) evs m) :
    (∀ release v, (.apply release, v) ∈ returns evs →
      ∃ done, release.1 <+: done ∧ done <+: all ∧ Applied exec schema₀ done m.store ∧
        m.store.versions = some (done.map Migration.version) ∧
        (∀ migration ∈ release.1, (done.map Migration.version).count migration.version = 1) ∧
        ∃ v', (applyBlock exec release.1).run m.store = .ok (v', m.store)) ∧
    ∀ c k e evs' m₁ m₂ m₃, Step (MigrationCall.prog exec) m (.began c k) m₁ →
      Run (MigrationCall.prog exec) m₁ evs' m₂ → (∀ ev ∈ evs', ev.conn = c → ev = .executed c) →
      Step (MigrationCall.prog exec) m₂ (.raised c k e) m₃ → m₃.store = m.store := by
  constructor
  · intro release v hmem
    obtain ⟨done, hlisted, hdone, hlog⟩ := serial_applied hall hrun.serial
    obtain ⟨hle, hsome⟩ := hlog release v hmem
    have hversions : m.store.versions = some (done.map Migration.version) := by
      obtain ⟨versions, hv⟩ := Option.isSome_iff_exists.mp hsome
      have hrecorded := hdone.versions
      rw [hv] at hrecorded
      rw [hv, ← hrecorded]
      rfl
    have hnodup : (done.map Migration.version).Nodup := by
      refine List.pairwise_map.mpr ((hall.of_prefix hlisted).increasing.imp fun hlt => ?_)
      exact Int.ne_of_lt hlt
    refine ⟨done, hle, hlisted, hdone, hversions, fun migration hmig => ?_,
      applyBlock_of_applied hdone hsome hle⟩
    exact List.count_eq_one_of_mem hnodup (List.mem_map_of_mem (hle.subset hmig))
  · intro c k e evs' m₁ m₂ m₃ hbegin hmid hevs hraise
    exact Run.store_eq_of_raised (hrun.coherent_serial (Coherent.start _ _)).1 hbegin hmid hevs hraise

end Migrations

section Sample

/-- Two releases: a table, and then an index on it. -/
def sampleMigrations : List (Migration PyStr) :=
  [⟨1, [py "CREATE TABLE t (x)"]⟩, ⟨2, [py "CREATE INDEX i ON t(x)"]⟩]

/-- A schema that only keeps its statements. -/
def keepStatement (statement : PyStr) (schema : List PyStr) : Except Exc (List PyStr) :=
  .ok (schema ++ [statement])

/-- The first release is opened, and then the second. -/
def sampleLog : List (MigrationCall sampleMigrations × Int) :=
  [(.create, 0), (.apply ⟨sampleMigrations.take 1, List.take_prefix _ _⟩, 1), (.create, 0),
    (.apply ⟨sampleMigrations, List.prefix_refl _⟩, 2)]

theorem migrations_exactly_once_sample :
    ∃ evs m, Run (MigrationCall.prog keepStatement)
        (Machine.start ⟨none, [], []⟩ : Machine Unit _ _ _ _) evs m ∧ returns evs = sampleLog ∧
      ∃ done, sampleMigrations <+: done ∧ Applied keepStatement [] done m.store := by
  have hserial : Serial (MigrationCall.prog keepStatement) ⟨none, [], []⟩ sampleLog
      ⟨some [1, 2], sampleMigrations.flatMap Migration.statements,
        sampleMigrations.flatMap Migration.statements⟩ :=
    .snoc (.snoc (.snoc (.snoc .nil rfl rfl) rfl rfl) rfl rfl) rfl rfl
  have hall : Increasing sampleMigrations := by
    refine ⟨?_, ?_⟩
    · intro m hm
      rcases List.mem_cons.mp hm with rfl | hm
      · decide
      · rw [List.mem_singleton.mp hm]
        decide
    · refine List.pairwise_cons.mpr ⟨fun m hm => ?_, List.pairwise_singleton _ _⟩
      rw [List.mem_singleton.mp hm]
      decide
  obtain ⟨evs, hrun, hlog⟩ := hserial.run ()
  obtain ⟨done, hle, -, happlied, -⟩ := (migrations_exactly_once hall hrun).1
    ⟨sampleMigrations, List.prefix_refl _⟩ 2 (by rw [hlog]; simp [sampleLog])
  exact ⟨evs, _, hrun, hlog, done, hle, happlied⟩

end Sample

end FlopOffice.Storage
