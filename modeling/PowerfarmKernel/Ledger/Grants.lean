import PowerfarmKernel.Lib.Privileges
import PowerfarmKernel.Ledger.Postgres
import PowerfarmKernel.Kernel.Writes
import PowerfarmKernel.Service.Sample

/-!
# The rights of the worker

The migrations leave the roles of the platform without rights, and give those of the worker to
`powerfarm_worker`. This is their list of statements about privileges, in order
(`PowerfarmKernel.Grants.migrations`), and the catalog it leaves.

`PostgresStore` connects as a member of that role. Its methods are here the methods of
`PowerfarmKernel.Postgres.handle`, each after the check of the rights that its statements need
(`PowerfarmKernel.Grants.handleAs`).

The worker may do whatever a method of the ledger does, except one thing: no migration lets it
insert into `public.objects`, so that `put_object` is refused
(`PowerfarmKernel.Grants.worker_refused_iff`). The commit gate puts the Command and the Context
before it hands over a new Act, so that only replays come back
(`PowerfarmKernel.Grants.worker_commits_iff`).
-/

namespace PowerfarmKernel

namespace Grants

open Privileges

/-! ### Roles and objects -/

/-- The roles the migrations name. -/
inductive Role where
  /-- `public`: every role has its rights. -/
  | everyone
  | anon
  | authenticated
  | serviceRole
  | powerfarmWorker
deriving DecidableEq

/-- The tables of the schema `public`, and the view over one of them. -/
inductive Table where
  | objects
  | acts
  | relations
  | registry
  | identities
  | identityKeys
  | identityLinks
  | oauthApplications
  | authorizationProofs
  | powerfarmSchemaMigrations
  | registrySeedManifest
  | identityKeysOpen
  | projectionRuns
  | projectionCheckpoints
  | projGraphNodes
  | projGraphEdges
  | adkEventEnvelopes
  | adkWorkflowNodes
  | adkToolCalls
  | adkArtifactRefs
  | trajectorySelectors
  | trajectoryRuns
  | trajectoryNodes
  | trajectoryEdges
  | trajectoryFeatures
  | trajectoryAnnotations
  | remoteLedgerSegments
  | updatePackages
  | powerfarmPackReceipts
  | principalBindings
deriving DecidableEq

/-- The functions the migrations create. -/
inductive Function where
  | rejectActMutation
  | identityKeysAtCut
  | isHashArray
  | validateActInsert
  | rejectLedgerMutation
  | commitAct
deriving DecidableEq

/-- The schemas. -/
inductive Schema where
  | publicSchema
  | powerfarmInternal
deriving DecidableEq

/-- What rights are about. -/
inductive Object where
  | table (t : Table) : Object
  | function (f : Function) : Object
  | schema (s : Schema) : Object
deriving DecidableEq

/-- What rights allow. -/
inductive Action where
  | select
  | insert
  | update
  | delete
  | truncate
  | references
  | trigger
  | usage
  | create
  | execute
deriving DecidableEq

/-- `all` of a schema, or of one kind of objects in it. -/
inductive Class where
  | publicTables
  | publicSequences
  | publicFunctions
  | internalFunctions
  | schemas
deriving DecidableEq

/-- The class of an object. -/
def classOf : Object → Class
  | .table _ => .publicTables
  | .function .rejectActMutation => .publicFunctions
  | .function _ => .internalFunctions
  | .schema _ => .schemas

abbrev Right := Privileges.Right Role Object Action

abbrev Policy := Privileges.Policy Role Object Action

abbrev Statement := Privileges.Statement Role Object Action Class

abbrev Catalog := Privileges.Catalog Role Object Action Class

/-! ### The migrations -/

/-- `all` on a table. -/
def allOnTable : List Action :=
  [.select, .insert, .update, .delete, .truncate, .references, .trigger]

/-- `all` on a schema. -/
def allOnSchema : List Action := [.usage, .create]

/-- `anon, authenticated, service_role`. -/
def platform : List Role := [.anon, .authenticated, .serviceRole]

/-- `public, anon, authenticated, service_role`. -/
def publicAndPlatform : List Role := .everyone :: platform

/-- `create table if not exists`. -/
def createTable (t : Table) : Statement := .create (.table t) []

/-- `create or replace function`: every role may call a new function. -/
def createFunction (f : Function) : Statement := .create (.function f) [(.everyone, .execute)]

/-- `create schema if not exists powerfarm_internal`. -/
def createInternal : Statement := .create (.schema .powerfarmInternal) []

/-- `alter table … enable row level security`. -/
def enableRowLevelSecurity (t : Table) : Statement := .secure (.table t)

/-- `drop policy if exists`, and `create policy … to powerfarm_worker` with `using (true)` or
`with check (true)`. -/
def workerPolicy (name : String) (actions : List Action) (t : Table) : List Statement :=
  [.dropPolicy name (.table t), .createPolicy ⟨name, .table t, actions, [.powerfarmWorker]⟩]

/-- `20260815060311_powerfarm_baseline.sql`. -/
def powerfarmBaseline : List Statement :=
  [.objects, .acts, .relations, .registry, .identities, .identityKeys].map createTable ++
    [createFunction .rejectActMutation] ++
    [.identityLinks, .oauthApplications, .authorizationProofs,
      .powerfarmSchemaMigrations].map createTable ++
    [.objects, .acts, .relations, .registry, .identities, .identityKeys, .identityLinks,
      .oauthApplications, .authorizationProofs,
      .powerfarmSchemaMigrations].map enableRowLevelSecurity ++
    [.revoke [.update, .delete, .truncate] [.table .acts] [.everyone],
      .revoke [.insert, .update, .delete, .truncate]
        ([.objects, .acts, .relations, .registry, .identities, .identityKeys].map .table)
        [.everyone],
      .revoke allOnTable ([.identityLinks, .oauthApplications, .authorizationProofs].map .table)
        [.everyone, .anon, .authenticated],
      .revoke allOnTable ([.objects, .acts, .relations, .registry, .identities, .identityKeys,
        .powerfarmSchemaMigrations].map .table) platform]

/-- `20260815123236_registry_seed.sql`. -/
def registrySeed : List Statement :=
  [createInternal, .revoke allOnSchema [.schema .powerfarmInternal] publicAndPlatform,
    createTable .registrySeedManifest, enableRowLevelSecurity .registrySeedManifest,
    .revoke allOnTable [.table .registrySeedManifest] publicAndPlatform]

/-- `20260815123237_identity_key_lookup.sql`. -/
def identityKeyLookup : List Statement :=
  [createInternal, createFunction .identityKeysAtCut, createTable .identityKeysOpen,
    .revoke allOnTable [.table .identityKeysOpen] publicAndPlatform,
    .revoke [.execute] [.function .identityKeysAtCut] publicAndPlatform]

/-- `20260815123238_ledger_integrity_checks.sql`. -/
def ledgerIntegrityChecks : List Statement :=
  [createInternal, createFunction .isHashArray, createFunction .validateActInsert,
    createFunction .rejectLedgerMutation,
    .revoke [.execute] [.function .isHashArray] publicAndPlatform,
    .revoke [.execute] [.function .validateActInsert] publicAndPlatform,
    .revoke [.execute] [.function .rejectLedgerMutation] publicAndPlatform]

/-- `20260815123239_commit_gate_rpc.sql`. -/
def commitGateRpc : List Statement :=
  [createInternal, createFunction .commitAct,
    .revoke [.execute] [.function .commitAct] publicAndPlatform,
    .grant [.usage] [.schema .powerfarmInternal] [.powerfarmWorker],
    .grant [.execute] [.function .commitAct] [.powerfarmWorker]]

/-- A migration with tables of its own: they are created and secured, and everything on them is
revoked. -/
def substrate (tables : List Table) : List Statement :=
  tables.map createTable ++ tables.map enableRowLevelSecurity ++
    [.revoke allOnTable (tables.map .table) publicAndPlatform]

/-- `20260815123240_projection_metadata.sql`. -/
def projectionMetadata : List Statement :=
  substrate [.projectionRuns, .projectionCheckpoints, .projGraphNodes, .projGraphEdges]

/-- `20260815123241_adk_integration_substrate.sql`. -/
def adkIntegrationSubstrate : List Statement :=
  substrate [.adkEventEnvelopes, .adkWorkflowNodes, .adkToolCalls, .adkArtifactRefs]

/-- `20260815123243_trajectory_projection_substrate.sql`. -/
def trajectoryProjectionSubstrate : List Statement :=
  substrate [.trajectorySelectors, .trajectoryRuns, .trajectoryNodes, .trajectoryEdges,
    .trajectoryFeatures, .trajectoryAnnotations]

/-- `20260815123244_storage_artifacts.sql`. -/
def storageArtifacts : List Statement := substrate [.remoteLedgerSegments, .updatePackages]

/-- The tables the worker keeps itself. -/
def workerTables : List Table :=
  [.projectionRuns, .projectionCheckpoints, .projGraphNodes, .projGraphEdges, .adkEventEnvelopes,
    .adkWorkflowNodes, .adkToolCalls, .adkArtifactRefs, .trajectorySelectors, .trajectoryRuns,
    .trajectoryNodes, .trajectoryEdges, .trajectoryFeatures, .trajectoryAnnotations]

/-- `20260815123245_rls_grants_final.sql`. -/
def rlsGrantsFinal : List Statement :=
  [.revoke allOnSchema [.schema .powerfarmInternal] publicAndPlatform,
    .revokeAll allOnTable .publicTables platform,
    .revokeAll [.usage, .select, .update] .publicSequences platform,
    .revokeAll [.execute] .publicFunctions publicAndPlatform,
    .revokeAll [.execute] .internalFunctions publicAndPlatform,
    .defaultRevoke allOnTable .publicTables platform,
    .defaultRevoke [.usage, .select, .update] .publicSequences platform,
    .defaultRevoke [.execute] .publicFunctions publicAndPlatform,
    .defaultRevoke [.execute] .internalFunctions publicAndPlatform,
    .grant [.usage] [.schema .publicSchema, .schema .powerfarmInternal] [.powerfarmWorker],
    .grant [.select] ([.objects, .acts, .relations, .registry, .identities, .identityKeys,
      .identityLinks, .oauthApplications, .authorizationProofs, .registrySeedManifest,
      .identityKeysOpen, .updatePackages].map .table) [.powerfarmWorker],
    .grant [.select, .insert] [.table .remoteLedgerSegments] [.powerfarmWorker],
    .grant [.select, .insert, .update, .delete] (workerTables.map .table) [.powerfarmWorker],
    .grant [.execute] [.function .identityKeysAtCut] [.powerfarmWorker],
    .grant [.execute] [.function .commitAct] [.powerfarmWorker]] ++
    [.objects, .acts, .relations, .registry, .identities, .identityKeys, .identityLinks,
      .oauthApplications, .authorizationProofs, .registrySeedManifest,
      .remoteLedgerSegments].flatMap (workerPolicy "powerfarm_worker_select" [.select]) ++
    workerPolicy "powerfarm_worker_insert" [.insert] .remoteLedgerSegments ++
    workerPolicy "powerfarm_worker_select" [.select] .updatePackages ++
    workerTables.flatMap
      (workerPolicy "powerfarm_worker_all" [.select, .insert, .update, .delete])

/-- `20260815123246_migration_receipts.sql`. -/
def migrationReceipts : List Statement :=
  substrate [.powerfarmPackReceipts] ++
    [.grant [.select, .insert] [.table .powerfarmPackReceipts] [.powerfarmWorker]] ++
    workerPolicy "powerfarm_worker_select" [.select] .powerfarmPackReceipts ++
    workerPolicy "powerfarm_worker_insert" [.insert] .powerfarmPackReceipts

/-- `20260816130000_act_occurrence_uniqueness.sql`. -/
def actOccurrenceUniqueness : List Statement := [createFunction .commitAct]

/-- `20260816140000_principal_bindings.sql`. -/
def principalBindings : List Statement :=
  substrate [.principalBindings] ++
    [.grant [.select, .insert, .update] [.table .principalBindings] [.powerfarmWorker]] ++
    workerPolicy "powerfarm_worker_select" [.select] .principalBindings ++
    workerPolicy "powerfarm_worker_insert" [.insert] .principalBindings ++
    workerPolicy "powerfarm_worker_unlink" [.update] .principalBindings ++
    [.drop (.table .identityLinks)]

/-- **What the migrations say about privileges**, in the order of their names. Those left out
here say nothing. -/
def migrations : List Statement :=
  powerfarmBaseline ++ registrySeed ++ identityKeyLookup ++ ledgerIntegrityChecks ++
    commitGateRpc ++ projectionMetadata ++ adkIntegrationSubstrate ++
    trajectoryProjectionSubstrate ++ storageArtifacts ++ rlsGrantsFinal ++ migrationReceipts ++
    actOccurrenceUniqueness ++ principalBindings

/-- A new database: every role may look things up in the schema `public`. -/
def newDatabase : Catalog where
  objects := [.schema .publicSchema]
  rights := [⟨.everyone, .schema .publicSchema, .usage⟩]
  defaults := []
  secured := []
  policies := []

/-- **The catalog the migrations leave.** -/
def catalog : Catalog := newDatabase.applyAll classOf migrations

/-! ### Sessions -/

/-- **A session**, by the roles whose rights it has. -/
structure Session where
  roles : List Role
  /-- Row level security hides nothing of what the roles may read, and refuses no row they may
  write. -/
  admits : ∀ r ∈ catalog.rights, r.role ∈ roles → catalog.Admits roles r.object r.action

/-- **A member of `powerfarm_worker`.** -/
def worker : Session where
  roles := [.everyone, .powerfarmWorker]
  admits := by decide +kernel

/-- The session may do something with an object. -/
abbrev Session.May (session : Session) (object : Object) (action : Action) : Prop :=
  catalog.May session.roles object action

/-- What one statement of a method needs. -/
abbrev Need : Type := Object × Action

/-- A statement over tables. -/
def onTable (t : Table) (actions : List Action) : List Need :=
  (.schema .publicSchema, .usage) :: actions.map fun action => (.table t, action)

/-- A call of a function of `powerfarm_internal`. -/
def callOf (f : Function) : List Need :=
  [(.schema .powerfarmInternal, .usage), (.function f, .execute)]

/-- **What the statements of a method of `PostgresStore` need**, on a database. The body of
`commit_act` runs with the rights of its owner, that of `identity_keys_at_cut` with those of the
caller. -/
def needs (db : Postgres) : LedgerOp → List Need
  | .historyCut => onTable .acts [.select]
  | .registered _ _ _ => onTable .registry [.select]
  | .hasObject _ => onTable .objects [.select]
  | .hasAct _ => onTable .acts [.select]
  | .putObject _ _ _ => onTable .objects [.insert, .select]
  | .objectCanon _ => onTable .objects [.select]
  | .commitAct _ _ _ => callOf .commitAct
  | .getAct _ => onTable .acts [.select]
  | .getActsForCommand _ => onTable .acts [.select]
  | .getObject _ => onTable .objects [.select]
  | .isClosedCut _ => onTable .acts [.select]
  | .getIdentity identityHash _ => onTable .identities [.select] ++
      if (db.identities.get? identityHash).isSome then
        callOf .identityKeysAtCut ++ onTable .identityKeys [.select]
      else []
  | .registryEntries _ _ => onTable .registry [.select] ++ onTable .objects [.select]
  | .resolvePrincipal issuer subject =>
      if issuer = "" ∨ subject = "" then [] else onTable .principalBindings [.select]
  | .linkPrincipal _ _ _ _ => onTable .principalBindings [.insert, .select]
  | .revokePrincipal _ _ _ => onTable .principalBindings [.update, .select]

/-- A table as a refusal names it. -/
def Table.describe : Table → String
  | .objects => "table objects"
  | .acts => "table acts"
  | .relations => "table relations"
  | .registry => "table registry"
  | .identities => "table identities"
  | .identityKeys => "table identity_keys"
  | .identityLinks => "table identity_links"
  | .oauthApplications => "table oauth_applications"
  | .authorizationProofs => "table authorization_proofs"
  | .powerfarmSchemaMigrations => "table powerfarm_schema_migrations"
  | .registrySeedManifest => "table registry_seed_manifest"
  | .identityKeysOpen => "view identity_keys_open"
  | .projectionRuns => "table projection_runs"
  | .projectionCheckpoints => "table projection_checkpoints"
  | .projGraphNodes => "table proj_graph_nodes"
  | .projGraphEdges => "table proj_graph_edges"
  | .adkEventEnvelopes => "table adk_event_envelopes"
  | .adkWorkflowNodes => "table adk_workflow_nodes"
  | .adkToolCalls => "table adk_tool_calls"
  | .adkArtifactRefs => "table adk_artifact_refs"
  | .trajectorySelectors => "table trajectory_selectors"
  | .trajectoryRuns => "table trajectory_runs"
  | .trajectoryNodes => "table trajectory_nodes"
  | .trajectoryEdges => "table trajectory_edges"
  | .trajectoryFeatures => "table trajectory_features"
  | .trajectoryAnnotations => "table trajectory_annotations"
  | .remoteLedgerSegments => "table remote_ledger_segments"
  | .updatePackages => "table update_packages"
  | .powerfarmPackReceipts => "table powerfarm_pack_receipts"
  | .principalBindings => "table principal_bindings"

/-- A function as a refusal names it. -/
def Function.describe : Function → String
  | .rejectActMutation => "function reject_act_mutation"
  | .identityKeysAtCut => "function identity_keys_at_cut"
  | .isHashArray => "function is_hash_array"
  | .validateActInsert => "function validate_act_insert"
  | .rejectLedgerMutation => "function reject_ledger_mutation"
  | .commitAct => "function commit_act"

/-- An object as a refusal names it. -/
def Object.describe : Object → String
  | .table t => t.describe
  | .function f => f.describe
  | .schema .publicSchema => "schema public"
  | .schema .powerfarmInternal => "schema powerfarm_internal"

/-- What `commit_act` asks first: its caller is a member of `powerfarm_worker`, or a superuser,
which no session here is. -/
def Session.callerRefusal (session : Session) : LedgerOp → Option String
  | .commitAct _ _ _ =>
      if .powerfarmWorker ∈ session.roles then none
      else some "commit_act requires powerfarm_worker membership"
  | _ => none

/-- Why a method is refused, if it is. -/
def Session.refusal (session : Session) (db : Postgres) (o : LedgerOp) : Option String :=
  match (needs db o).find? fun need => ¬session.May need.1 need.2 with
  | some need => some ("permission denied for " ++ need.1.describe)
  | none => session.callerRefusal o

/-- **The database answers the store protocol to a session.** -/
def handleAs (P : Primitives) (session : Session) : Handler LedgerOp.Ret Raised Postgres :=
  fun o db => match session.refusal db o with
    | some text => (.error (databaseError text), db)
    | none => Postgres.handle P o db

/-! ### What the worker may do -/

/-- What the methods of the ledger need, except to insert into `public.objects`. -/
def grantedNeeds : List Need :=
  onTable .objects [.select] ++ onTable .acts [.select] ++ onTable .registry [.select] ++
    onTable .identities [.select] ++ onTable .identityKeys [.select] ++
    onTable .principalBindings [.select, .insert, .update] ++ callOf .commitAct ++
    callOf .identityKeysAtCut

/-- The worker has all of it. -/
theorem worker_may : ∀ need ∈ grantedNeeds, worker.May need.1 need.2 := by
  decide +kernel

/-- **The worker may not insert into `public.objects`**: no migration gives the right to one of
its roles. -/
theorem not_worker_may_insert : ¬worker.May (.table .objects) .insert := by
  rintro ⟨role, hrole, hright⟩
  have hgiven : newDatabase.Can classOf ⟨role, .table .objects, .insert⟩ ∨
      ∃ s ∈ migrations, s.Gives classOf ⟨role, .table .objects, .insert⟩ :=
    Catalog.given_of_mem (Or.inl hright)
  rcases hgiven with hheld | ⟨s, hs, hgives⟩
  · exact (by decide +kernel : ∀ role ∈ worker.roles,
      ¬newDatabase.Can classOf ⟨role, .table .objects, .insert⟩) role hrole hheld
  · exact (by decide +kernel : ∀ role ∈ worker.roles, ∀ s ∈ migrations,
      ¬s.Gives classOf ⟨role, .table .objects, .insert⟩) role hrole s hs hgives

variable {P : Primitives} {db t : Postgres} {c : Submission} {act : Act} {o : LedgerOp}

/-- What a method needs is granted, unless it puts an object. -/
theorem needs_subset (ho : ∀ h canon kind, o ≠ .putObject h canon kind) :
    needs db o ⊆ grantedNeeds := by
  have hread : ∀ t ∈ [Table.objects, .acts, .registry, .identities, .identityKeys,
      .principalBindings], onTable t [.select] ⊆ grantedNeeds := by decide
  have hcall : ∀ f ∈ [Function.commitAct, .identityKeysAtCut], callOf f ⊆ grantedNeeds := by decide
  cases o with
  | putObject h canon kind => exact absurd rfl (ho h canon kind)
  | historyCut => exact hread .acts (by decide)
  | registered kind name cut => exact hread .registry (by decide)
  | hasObject h => exact hread .objects (by decide)
  | hasAct h => exact hread .acts (by decide)
  | objectCanon h => exact hread .objects (by decide)
  | commitAct act canon commandType => exact hcall .commitAct (by decide)
  | getAct h => exact hread .acts (by decide)
  | getActsForCommand h => exact hread .acts (by decide)
  | getObject h => exact hread .objects (by decide)
  | isClosedCut cut => exact hread .acts (by decide)
  | getIdentity h cut =>
    refine List.append_subset.mpr ⟨hread .identities (by decide), ?_⟩
    split
    · exact List.append_subset.mpr
        ⟨hcall .identityKeysAtCut (by decide), hread .identityKeys (by decide)⟩
    · exact List.nil_subset _
  | registryEntries kind cut =>
    exact List.append_subset.mpr ⟨hread .registry (by decide), hread .objects (by decide)⟩
  | resolvePrincipal issuer subject =>
    rw [needs]
    split
    · exact List.nil_subset _
    · exact hread .principalBindings (by decide)
  | linkPrincipal issuer subject identityHash linkedAct =>
    exact (by decide : onTable .principalBindings [.insert, .select] ⊆ grantedNeeds)
  | revokePrincipal issuer subject unlinkedAct =>
    exact (by decide : onTable .principalBindings [.update, .select] ⊆ grantedNeeds)

theorem worker_callerRefusal : worker.callerRefusal o = none := by
  cases o with
  | commitAct act canon commandType => rw [Session.callerRefusal, if_pos (by decide)]
  | _ => rfl

/-- **What the worker is refused**: to put an object, and nothing else. -/
theorem worker_refused_iff :
    worker.refusal db o ≠ none ↔ ∃ h canon kind, o = .putObject h canon kind := by
  rw [Session.refusal]
  constructor
  · intro hrefused
    by_contra hnone
    have hfind : ((needs db o).find? fun need => ¬worker.May need.1 need.2) = none := by
      rw [List.find?_eq_none]
      intro need hneed
      have hmay := worker_may need (needs_subset (fun h canon kind heq =>
        hnone ⟨h, canon, kind, heq⟩) hneed)
      simpa using hmay
    rw [hfind] at hrefused
    exact hrefused worker_callerRefusal
  · rintro ⟨h, canon, kind, rfl⟩
    have hneed : (.table .objects, .insert) ∈ needs db (.putObject h canon kind) :=
      List.mem_cons_of_mem _ List.mem_cons_self
    cases hfind : (needs db (.putObject h canon kind)).find? fun need =>
        ¬worker.May need.1 need.2 with
    | none =>
      rw [List.find?_eq_none] at hfind
      exact absurd (by simpa using hfind _ hneed) not_worker_may_insert
    | some need => exact Option.some_ne_none _

theorem handleAs_worker (ho : ∀ h canon kind, o ≠ .putObject h canon kind) :
    handleAs P worker o db = Postgres.handle P o db := by
  have hrefusal : worker.refusal db o = none := by
    by_contra hne
    obtain ⟨h, canon, kind, rfl⟩ := worker_refused_iff.mp hne
    exact ho h canon kind rfl
  rw [handleAs, hrefusal]

/-- The worker puts no object. -/
theorem run_putObject_worker (h : Hash) (canon : Bytes) (kind : String) :
    ∃ e, (LedgerM.putObject h canon kind).run (handleAs P worker) db = (.error e, db) := by
  have hrefused : worker.refusal db (.putObject h canon kind) ≠ none :=
    worker_refused_iff.mpr ⟨h, canon, kind, rfl⟩
  obtain ⟨text, htext⟩ := Option.ne_none_iff_exists'.mp hrefused
  refine ⟨databaseError text, Prog.run_call.trans ?_⟩
  rw [handleAs, htext]
  rfl

/-! ### The gate -/

open Prog LedgerM CommitGate

/-- The worker reads as the owner of the database does. -/
theorem run_head_worker :
    (head P c).run (handleAs P worker) db = (head P c).run (Postgres.handle P) db := by
  have hread : ∀ o, LedgerOp.IsGateRead o → ∀ s, handleAs P worker o s = Postgres.handle P o s := by
    intro o ho s
    refine handleAs_worker fun h canon kind heq => ?_
    rw [heq] at ho
    exact ho
  have hstay : ∀ o, LedgerOp.IsGateRead o → ∀ s, (Postgres.handle P o s).2 = s :=
    fun o ho s => Postgres.handle_isRead ho.isRead s
  have hstay' : ∀ o, LedgerOp.IsGateRead o → ∀ s, (handleAs P worker o s).2 = s :=
    fun o ho s => by rw [hread o ho s, hstay o ho s]
  refine Prod.ext (only_head.run_congr fun o ho => ?_) ?_
  · exact ⟨hstay' o ho db, hstay o ho db, by rw [hread o ho db]⟩
  · rw [only_head.run_state hstay', only_head.run_state hstay]

theorem run_getAct {h : Hash} :
    (getAct h).run (Postgres.handle P) db = (.ok (db.getAct h), db) := run_call

/-- **The head of the gate returns an Act** exactly if one stands under the hash of the Act that
is asked for. -/
theorem run_head_ok {x : Act ⊕ CanonValue × Hash × Hash × Hash}
    (h : (head P c).run (Postgres.handle P) db = (.ok x, t)) :
    ∃ k, c.occurrence P = .ok k ∧ (x.isLeft = true ↔ db.HasAct k) := by
  rw [head, run_raiseWhen_bind_ok, run_raiseWhen_bind_ok] at h
  simp only [run_ofExcept_bind_ok] at h
  obtain ⟨-, -, value, hvalue, k, hhash, hrun⟩ := h
  refine ⟨k, occurrence_ok_iff.mpr ⟨value, hvalue, hhash⟩, ?_⟩
  rw [run_bind_of_eq run_getAct] at hrun
  cases hget : db.getAct k with
  | none =>
    rw [hget] at hrun
    obtain ⟨hashes, s, -, hrun⟩ := run_bind_ok.mp hrun
    cases hrun
    exact iff_of_false Bool.false_ne_true (Postgres.getAct_eq_none_iff.mp hget)
  | some a =>
    rw [hget] at hrun
    cases hrun
    obtain ⟨hmem, rfl⟩ := Postgres.getAct_eq_some hget
    exact iff_of_true rfl ⟨a, hmem, rfl⟩

/-- The worker does not write. -/
theorem run_write_worker {value : CanonValue} {k commandHash contextHash : Hash} :
    (write P c value k commandHash contextHash).run (handleAs P worker) db ≠ (.ok act, t) := by
  intro h
  rw [write, run_ofExcept_bind_ok] at h
  obtain ⟨commandCanon, -, h⟩ := h
  obtain ⟨x, u, hput, -⟩ := run_bind_ok.mp h
  obtain ⟨e, he⟩ : ∃ e, (putObject commandHash commandCanon "command").run (handleAs P worker) db
    = (.error e, db) := run_putObject_worker _ _ _
  rw [he] at hput
  cases hput

/-- **The worker commits exactly the replays**: where the gate, with all rights, returns an Act,
it returns it to the worker too if and only if an Act stands already under the hash of the one
asked for. -/
theorem worker_commits_iff
    (h : (commit P c).run (Postgres.handle P) db = (.ok act, t)) :
    (commit P c).run (handleAs P worker) db = (.ok act, t) ↔
      ∃ k, c.occurrence P = .ok k ∧ db.HasAct k := by
  rw [commit_eq] at h ⊢
  obtain ⟨x, s, hhead, htail⟩ := run_bind_ok.mp h
  obtain ⟨k, hocc, hleft⟩ := run_head_ok hhead
  rw [run_bind_of_eq (run_head_worker.trans hhead)]
  cases x with
  | inl a =>
    refine iff_of_true ?_ ⟨k, hocc, hleft.mp rfl⟩
    exact htail
  | inr found =>
    obtain ⟨value, actHash, commandHash, contextHash⟩ := found
    refine iff_of_false run_write_worker ?_
    rintro ⟨k', hocc', hact⟩
    obtain rfl : k = k' := Except.ok.inj (hocc.symm.trans hocc')
    exact Bool.false_ne_true (hleft.mpr hact)

/-- **A replay returns the Act that stands**, and changes nothing. -/
theorem run_commit_of_hasAct {k : Hash} (hsigner : c.identity.hash = c.command.identityHash)
    (hverified : c.command.verifies P c.identity = true) (hocc : c.occurrence P = .ok k)
    (hact : db.getAct k = some act) :
    (commit P c).run (Postgres.handle P) db = (.ok act, db) := by
  obtain ⟨value, hvalue, hhash⟩ := occurrence_ok_iff.mp hocc
  rw [commit, run_raiseWhen_bind_ok, run_raiseWhen_bind_ok]
  simp only [run_ofExcept_bind_ok]
  refine ⟨not_not.mpr hsigner, ne_false_of_eq_true hverified, value, hvalue, k, hhash, ?_⟩
  rw [run_bind_of_eq run_getAct, hact]
  rfl

end Grants

namespace Sample

/-- The Act that a thing to be made asks for. -/
def askedThing : Act :=
  CommitGate.actOf (makeThing []) ("c056" ++ pad) ("8350" ++ pad) ("3ef9" ++ pad)

/-- The database after the call. -/
def afterThing : Postgres := { database with acts := database.acts ++ [askedThing] }

end Sample

namespace Grants

open Prog CommitGate

theorem worker_commits_replay :
    (commit Sample.libraries (Sample.makeThing [])).run (handleAs Sample.libraries worker)
      Sample.afterThing = (.ok Sample.askedThing, Sample.afterThing) := by
  have hocc : (Sample.makeThing []).occurrence Sample.libraries = .ok Sample.askedThing.hash :=
    Sample.ok_of_toOption (by decide +kernel)
  refine (worker_commits_iff (run_commit_of_hasAct rfl (by decide +kernel) hocc ?_)).mpr
    ⟨Sample.askedThing.hash, hocc, Sample.askedThing, List.mem_append_right _ ?_, rfl⟩
  · decide +kernel
  · exact List.mem_singleton_self _

/-- **A new Act is refused to the worker**: the gate admits it with all rights, and raises for a
member of `powerfarm_worker`. -/
theorem worker_refused_new : ∃ act t,
    (commit Sample.libraries (Sample.makeThing [])).run (Postgres.handle Sample.libraries)
      Sample.database = (.ok act, t) ∧
    (commit Sample.libraries (Sample.makeThing [])).run (handleAs Sample.libraries worker)
      Sample.database ≠ (.ok act, t) := by
  have hadmitted : ((commit Sample.libraries (Sample.makeThing [])).run
      (Postgres.handle Sample.libraries) Sample.database).1.toOption = some Sample.askedThing := by
    decide +kernel
  have hrefused : ((commit Sample.libraries (Sample.makeThing [])).run
      (handleAs Sample.libraries worker) Sample.database).1.toOption = none := by
    decide +kernel
  rcases hrun : (commit Sample.libraries (Sample.makeThing [])).run
    (Postgres.handle Sample.libraries) Sample.database with ⟨r, t⟩
  rw [hrun] at hadmitted
  refine ⟨Sample.askedThing, t, by rw [← Sample.ok_of_toOption hadmitted], fun h => ?_⟩
  rw [h] at hrefused
  cases hrefused

end Grants

end PowerfarmKernel
