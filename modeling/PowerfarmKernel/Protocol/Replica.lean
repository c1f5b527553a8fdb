import PowerfarmKernel.Ledger.Mirror
import PowerfarmKernel.Lib.Follows
import PowerfarmKernel.Protocol.Server

/-!
# A server without a database

Where no database is configured, `build_runtime_from_env` keeps the ledger in memory. The server
is then the same program over the other adapter, and for developers it stands in for the one in
production.

What a server with a database answers to a session of requests, the server without one answers to
the same session, when its ledger holds the same at the start; and then it holds the same at the
end (`PowerfarmKernel.Protocol.session_replicated`). This goes one way only: the database refuses
some of what a ledger in memory accepts, so a session in which a request fails says nothing. The
registry is read as `PowerfarmKernel.Postgres.registryEntries` takes the database to read it.
-/

namespace PowerfarmKernel

open Prog LedgerM

/-- **What a program returns over a database**, it returns over a ledger that holds the same. -/
abbrev Mirrors (P : Primitives) {α : Type} (p : LedgerM α) : Prop :=
  Follows (Postgres.handle P) memoryLedger (Mirrored P) p

section Mirrors

variable {P : Primitives} {c : Submission} {request : ActionRequest} {service : AuthorityService}
  {principal : Option RequestPrincipal}

theorem mirrors_call {o : LedgerOp} (ho : o.LinksNone) :
    Mirrors P (Prog.call o : LedgerM o.Ret) :=
  .call fun _ _ _ _ hm hanswer => hm.handle ho hanswer

/-! ### The gate -/

/-- A search for something that is not there. -/
theorem mirrors_anyM_not {α : Type} {f : α → LedgerM Bool} (hf : ∀ a, Mirrors P (f a))
    (l : List α) : Mirrors P (l.anyM fun a => do
      let known ← f a
      return !known) :=
  .anyM (fun a => .bind (hf a) fun _ => .pure _) l

theorem mirrors_reviewedCommand (payloadHash : Hash) :
    Mirrors P (CommitGate.reviewedCommand P payloadHash) :=
  .bind (mirrors_call trivial) fun _ => .pure _

theorem mirrors_requireStructuralProof (command : Command) (commandHash : Hash) (actType : String)
    (authChain : List Hash) :
    Mirrors P (CommitGate.requireStructuralProof P command commandHash actType authChain) := by
  have hlinks : Mirrors P (authChain.mapM getAct) :=
    .mapM (f := getAct) (fun _ => mirrors_call trivial) authChain
  refine .ite ?_ (.bind hlinks fun links => ?_)
  · exact .bind (.raiseWhen _ _) fun _ => .bind (mirrors_reviewedCommand _) fun _ =>
      .raiseWhen _ _
  · refine .ite ?_ (.ite (.pure _) ?_)
    · refine .bind (.raiseWhen _ _) fun _ => .bind (.raiseWhen _ _) fun _ => .bind ?_ fun _ =>
        .raiseWhen _ _
      exact .anyM (fun _ => .bind (mirrors_reviewedCommand _) fun _ => .pure _) _
    · exact .bind (mirrors_call trivial) fun _ => .raiseWhen _ _

theorem mirrors_write {value : CanonValue} {actHash commandHash contextHash : Hash} :
    Mirrors P (CommitGate.write P c value actHash commandHash contextHash) := by
  refine .bind (.ofExcept _) fun _ => .bind (mirrors_call trivial) fun _ => ?_
  refine .bind (.ofExcept _) fun _ => .bind (mirrors_call trivial) fun _ => ?_
  exact .mapError _ (.bind (.ofExcept _) fun _ => mirrors_call trivial)

theorem mirrors_commitFresh {value : CanonValue} {actHash : Hash} :
    Mirrors P (CommitGate.commitFresh P c value actHash) := by
  refine .bind (.raiseWhen _ _) fun _ => .bind (.ofExcept _) fun commandHash => ?_
  refine .bind (.ofExcept _) fun contextHash => .bind ?_ fun _ => .bind (.raiseWhen _ _) fun _ => ?_
  · exact .ite (.bind (mirrors_call trivial) fun _ => .pure _) (.pure _)
  refine .bind (mirrors_requireStructuralProof _ _ _ _) fun _ => ?_
  refine .bind (mirrors_call trivial) fun _ => .bind (.raiseWhen _ _) fun _ => ?_
  refine .bind (mirrors_call trivial) fun _ => .bind (.raiseWhen _ _) fun _ => ?_
  refine .bind (mirrors_call trivial) fun _ => .bind (.raiseWhen _ _) fun _ => ?_
  refine .bind (.raiseWhen _ _) fun _ => ?_
  refine .bind (mirrors_anyM_not (f := fun ruleHash => registered "rule" ruleHash _)
    (fun _ => mirrors_call trivial) _) fun _ => ?_
  refine .bind (.raiseWhen _ _) fun _ => ?_
  refine .bind (mirrors_anyM_not (f := fun key => registered "context_type" key _)
    (fun _ => mirrors_call trivial) _) fun _ => ?_
  refine .bind (.raiseWhen _ _) fun _ => ?_
  refine .bind (mirrors_call trivial) fun _ => .bind (.raiseWhen _ _) fun _ => ?_
  refine .bind (mirrors_anyM_not (f := hasAct) (fun _ => mirrors_call trivial) _) fun _ => ?_
  exact .bind (.raiseWhen _ _) fun _ => mirrors_write

/-- **The gate**, whether it finds the occurrence or not. -/
theorem mirrors_gate : Mirrors P (CommitGate.commit P c) := by
  refine .bind (.raiseWhen _ _) fun _ => .bind (.raiseWhen _ _) fun _ => ?_
  refine .bind (.ofExcept _) fun value => .bind (.ofExcept _) fun actHash => ?_
  refine .bind (mirrors_call trivial) fun existing => ?_
  rcases existing with _ | act
  · exact mirrors_commitFresh
  · exact .pure _

/-! ### The services -/

theorem mirrors_resolveRequester (allow : Bool) (performer : Identity) (cut : Cut) :
    Mirrors P (IdentityService.resolveRequester allow performer principal cut) := by
  rcases principal with _ | principal
  · exact .ite (.raise _) (.pure _)
  · refine .bind (mirrors_call trivial) fun resolved => ?_
    rcases resolved with _ | requesterHash
    · exact .raise _
    · refine .ite (.pure _) (.bind (mirrors_call trivial) fun found => ?_)
      rcases found with _ | requester
      · exact .raise _
      · exact .pure _

theorem mirrors_performer (command : Command) (cut : Cut) :
    Mirrors P (AuthorityService.performer command cut) := by
  refine .bind (mirrors_call trivial) fun found => ?_
  rcases found with _ | identity
  · exact .raise _
  · exact .pure _

theorem mirrors_validatePayload : Mirrors P (AuthorityService.validatePayload P request) := by
  rw [AuthorityService.validatePayload]
  rcases request.payload with _ | payload
  · exact .bind (mirrors_call trivial) fun _ => .raiseWhen _ _
  · exact .bind (.ofExcept _) fun _ => .raiseWhen _ _

theorem mirrors_validateRegistry {context : Context} {registryCut : Cut} :
    Mirrors P (AuthorityService.validateRegistry request context registryCut) := by
  refine .bind (mirrors_call trivial) fun _ => .bind (.raiseWhen _ _) fun _ => ?_
  refine .bind (mirrors_call trivial) fun _ => .bind (.raiseWhen _ _) fun _ => ?_
  exact .forM (f := AuthorityService.requireContextType registryCut)
    (fun _ => .bind (mirrors_call trivial) fun _ => .raiseWhen _ _) _

/-- **An evaluation**, where the resolver of the service is one. -/
theorem mirrors_evaluate (hrules : ∀ command context historyCut registryCut,
      Mirrors P (service.rules.resolve command context historyCut registryCut)) :
    Mirrors P (AuthorityService.evaluate P service request principal) := by
  refine .bind (.ofExcept _) fun command => .bind (mirrors_call trivial) fun currentCut => ?_
  refine .bind (mirrors_call trivial) fun _ => .bind (.raiseWhen _ _) fun _ => ?_
  refine .bind (mirrors_call trivial) fun _ => .bind (.raiseWhen _ _) fun _ => ?_
  refine .bind (mirrors_performer _ _) fun identity => .bind (.raiseWhen _ _) fun _ => ?_
  refine .bind (mirrors_resolveRequester _ _ _) fun requester => ?_
  refine .bind (.ofExcept _) fun context => .bind mirrors_validatePayload fun _ => ?_
  refine .bind mirrors_validateRegistry fun _ => .bind (hrules _ _ _ _) fun rules => ?_
  refine .bind (.raiseWhen _ _) fun _ => ?_
  refine .bind (mirrors_anyM_not (f := fun rule : Rule => registered "rule" rule.hash _)
    (fun _ => mirrors_call trivial) _) fun _ => ?_
  exact .bind (.raiseWhen _ _) fun _ => .bind (.ofExcept _) fun _ => .pure _

theorem mirrors_settledConsequence {E : EvaluatedAction} :
    Mirrors P (AuthorityService.settledConsequence P E) := by
  refine .bind (.ofExcept _) fun commandHash => .bind (mirrors_call trivial) fun owned => ?_
  dsimp only
  rcases List.find? _ _ with _ | act
  · exact .pure _
  · exact .bind (.raiseWhen _ _) fun _ => .bind (.ofExcept _) fun _ =>
      .bind (.raiseWhen _ _) fun _ => .pure _

theorem mirrors_commitEvaluated {E : EvaluatedAction} :
    Mirrors P (AuthorityService.commitEvaluated P request E) := by
  refine .bind (mirrors_call trivial) fun cutBefore => .bind (.raiseWhen _ _) fun _ => ?_
  refine .bind ?_ fun _ => .bind mirrors_gate fun act => .ite (.pure _) (.pure _)
  rw [AuthorityService.storePayload]
  rcases request.payload with _ | payload
  · exact .pure _
  · exact .bind (.ofExcept _) fun _ => mirrors_call trivial

/-- **A commit.** -/
theorem mirrors_commit (hrules : ∀ command context historyCut registryCut,
      Mirrors P (service.rules.resolve command context historyCut registryCut)) :
    Mirrors P (AuthorityService.commit P service request principal) := by
  refine .bind (mirrors_evaluate hrules) fun E => .bind (.raiseWhen _ _) fun _ => ?_
  refine .ite (.bind mirrors_settledConsequence fun settled => ?_) mirrors_commitEvaluated
  rcases settled with _ | result
  · exact mirrors_commitEvaluated
  · exact .pure _

theorem mirrors_action (actHash : Hash) : Mirrors P (ExplainService.action P actHash) := by
  refine .bind (mirrors_call trivial) fun found => ?_
  rcases found with _ | act
  · exact .raise _
  · exact .bind (mirrors_call trivial) fun _ => .bind (mirrors_call trivial) fun _ =>
      .bind (mirrors_call trivial) fun _ => .pure _

end Mirrors

/-! ### The protocol -/

namespace Protocol

variable {P : Primitives} {service : AuthorityService} {principal : Option RequestPrincipal}
  {env : Environment} {isHttpUrl : String → Bool} {L : Jwt} {F : Framework}
  {server : Server}

/-- **What is answered over a database**, if it is no failure, is answered over a ledger that
holds the same. -/
def Replicates (P : Primitives) (p : LedgerM Response) : Prop :=
  ∀ db m output t, Mirrored P db m → p.run (Postgres.handle P) db = (.ok (.ok output), t) →
    ∃ m', p.run memoryLedger m = (.ok (.ok output), m') ∧ Mirrored P t m'

/-- An answer that is no failure is made of a result. -/
theorem replicates_attempt {α : Type} {p : LedgerM α} {f : Except Raised α → Response}
    (hp : Mirrors P p) (hf : ∀ e output, f (.error e) ≠ .ok output) :
    Replicates P (do
      let result ← p.attempt
      return f result) := by
  intro db m output t hm hrun
  rw [run_bind_of_eq (run_attempt p)] at hrun
  rcases hfirst : p.run (Postgres.handle P) db with ⟨e | a, u⟩
  · rw [hfirst, run_pure, Prod.mk.injEq, Except.ok.injEq] at hrun
    exact absurd hrun.1 (hf e output)
  · rw [hfirst, run_pure, Prod.mk.injEq, Except.ok.injEq] at hrun
    obtain ⟨houtput, rfl⟩ := hrun
    obtain ⟨m', hfirst', hm'⟩ := hp db m a u hm hfirst
    refine ⟨m', ?_, hm'⟩
    rw [run_bind_of_eq (run_attempt p), hfirst', run_pure, houtput]

theorem replicates_answer {α : Type} {operation : LedgerM α} {output : α → Except Raised Output}
    (h : Mirrors P operation) : Replicates P (Tool.answer operation output) := by
  refine replicates_attempt h fun e found heq => ?_
  rw [callService] at heq
  rcases hfailure : mcpError e with _ | failure
  · rw [hfailure] at heq
    cases heq
  · rw [hfailure] at heq
    cases heq

theorem replicates_tool (hrules : ∀ command context historyCut registryCut,
      Mirrors P (service.rules.resolve command context historyCut registryCut)) (tool : Tool) :
    Replicates P (tool.respond P service principal) := by
  cases tool with
  | evaluate action => exact replicates_answer (mirrors_evaluate hrules)
  | commit action => exact replicates_answer (mirrors_commit hrules)
  | submitReview action =>
    exact replicates_answer (.bind (.ofExcept _) fun _ => mirrors_commit hrules)
  | admitObservation action =>
    exact replicates_answer (.bind (.ofExcept _) fun _ => mirrors_commit hrules)
  | explain actHash => exact replicates_answer (mirrors_action actHash)
  | commandStatus commandHash =>
    exact replicates_answer (.bind (mirrors_call trivial) fun _ => .pure _)

theorem replicates_resource (resource : Resource) : Replicates P resource.respond := by
  refine replicates_attempt ?_ nofun
  cases resource with
  | registryCurrent =>
    exact .bind (mirrors_call trivial) fun _ => .bind (mirrors_call trivial) fun _ => .pure _
  | rulesCurrent =>
    exact .bind (mirrors_call trivial) fun _ => .bind (mirrors_call trivial) fun _ => .pure _
  | estateCurrent => exact .bind (mirrors_call trivial) fun _ => .pure _
  | act actHash => exact .bind (mirrors_call trivial) fun _ => .pure _
  | command commandHash => exact .bind (mirrors_call trivial) fun _ => .pure _
  | identity identityHash =>
    exact .bind (mirrors_call trivial) fun _ => .bind (mirrors_call trivial) fun _ => .pure _

/-- The environment without a database. -/
def withoutDatabase (env : Environment) : Environment := fun name =>
  if name = "DATABASE_URL" then none else env name

/-- **A server does not depend on its database** but for the place of its ledger. -/
theorem createServer_withoutDatabase :
    createServer isHttpUrl L (withoutDatabase env) none none none none =
      (createServer isHttpUrl L env none none none none).map fun server =>
        { server with runtime := { server.runtime with databaseUrl := none } } := by
  have hauth : authFromEnv isHttpUrl L (withoutDatabase env) = authFromEnv isHttpUrl L env := rfl
  rw [createServer, createServer]
  dsimp only
  rw [hauth]
  rcases authFromEnv isHttpUrl L env with e | ⟨auth, verifier, required⟩
  · rfl
  · change (if _ then _ else _) = Except.map _ (if _ then _ else _)
    split
    · rfl
    · rfl

/-- The service of a server built from its environment resolves the configured Rules. -/
theorem mirrors_rules (hserver : createServer isHttpUrl L env none none none none = .ok server)
    (command : Command) (context : Context) (historyCut registryCut : Cut) :
    Mirrors P (server.runtime.authority.rules.resolve command context historyCut registryCut) := by
  obtain ⟨required, hruntime⟩ := runtime_of_createServer hserver
  rw [hruntime]
  exact .bind (mirrors_call trivial) fun _ => .ofExcept _

/-- A request that is refused, or answered without a failure. -/
theorem replicates_respond (hserver : createServer isHttpUrl L env none none none none = .ok server)
    {db t : Postgres} {m : MemoryLedger} (hm : Mirrored P db m) {request : Request}
    {response : Option Response}
    (hrun : (respond F P server request).run (Postgres.handle P) db = (.ok response, t))
    (hanswered : ∀ answered, response = some answered → ∃ output, answered = .ok output) :
    ∃ m', (respond F P server request).run memoryLedger m = (.ok response, m') ∧
      Mirrored P t m' := by
  rcases haccept : F.accept server.tokenVerifier request.bearer with _ | token
  · have hrefused : respond F P server request = pure none := by rw [respond, haccept]
    rw [hrefused] at hrun ⊢
    cases hrun
    exact ⟨m, rfl, hm⟩
  · have haccepted : respond F P server request = (do
        let response ← respondAs P server.runtime.authority (currentPrincipal token) request.asked
        return some response) := by rw [respond, haccept]
    rw [haccepted] at hrun ⊢
    obtain ⟨answered, u, hrespond, hresponse⟩ := run_bind_ok.mp hrun
    cases hresponse
    obtain ⟨output, rfl⟩ := hanswered answered rfl
    have hreplicates : Replicates P (respondAs P server.runtime.authority
        (currentPrincipal token) request.asked) := by
      rcases request.asked with tool | resource
      · exact replicates_tool (mirrors_rules hserver) tool
      · exact replicates_resource resource
    obtain ⟨m', hrespond', hm'⟩ := hreplicates db m output t hm hrespond
    exact ⟨m', run_bind_ok.mpr ⟨_, m', hrespond', rfl⟩, hm'⟩

/-- **The database replicated in memory.** A server is built from its environment, and another
from the same environment without a database, over a ledger in memory that holds what the
database of the first holds. A session of requests, each of which the first server refuses or
answers without a failure, is answered by the other in the same words, and then its ledger holds
again what the database holds. -/
theorem session_replicated (P : Primitives) (isHttpUrl : String → Bool) (L : Jwt) (F : Framework)
    (env : Environment) (server replica : Server)
    (hserver : createServer isHttpUrl L env none none none none = .ok server)
    (hreplica : createServer isHttpUrl L (withoutDatabase env) none none none none = .ok replica)
    (db t : Postgres) (m : MemoryLedger) (hm : Mirrored P db m) (requests : List Request)
    (responses : List (Option Response))
    (hrun : (requests.mapM (respond F P server)).run (Postgres.handle P) db = (.ok responses, t))
    (hanswered : ∀ response, some response ∈ responses → ∃ output, response = .ok output) :
    ∃ m', (requests.mapM (respond F P replica)).run memoryLedger m = (.ok responses, m') ∧
      Mirrored P t m' := by
  have hsame : ∀ request, respond F P replica request = respond F P server request := by
    rw [createServer_withoutDatabase, hserver] at hreplica
    cases hreplica
    exact fun _ => rfl
  rw [show respond F P replica = respond F P server from funext hsame]
  induction requests generalizing db m responses with
  | nil =>
    rw [List.mapM_nil] at hrun ⊢
    cases hrun
    exact ⟨m, rfl, hm⟩
  | cons request requests ih =>
    rw [List.mapM_cons] at hrun ⊢
    obtain ⟨response, u, hfirst, hrest⟩ := run_bind_ok.mp hrun
    obtain ⟨others, v, hothers, hend⟩ := run_bind_ok.mp hrest
    cases hend
    obtain ⟨m', hfirst', hm'⟩ := replicates_respond hserver hm hfirst fun answered hsome =>
      hanswered answered (hsome ▸ List.mem_cons_self)
    obtain ⟨m'', hothers', hm''⟩ := ih u m' hm' others hothers fun answered hmem =>
      hanswered answered (List.mem_cons_of_mem _ hmem)
    exact ⟨m'', run_bind_ok.mpr ⟨response, m', hfirst', run_bind_ok.mpr ⟨others, m'', hothers',
      rfl⟩⟩, hm''⟩

/-! Alice, and a ledger in memory that knows her. -/

/-- A name of `boundDatabase`, with its definition. -/
def boundEntry (e : String × String) : RegistryEntry :=
  ⟨Sample.nameHash e.2, e.1, e.2, 1, Sample.genesisHash Sample.pad, true, .dict []⟩

/-- What `boundDatabase` holds, in memory. -/
def boundLedger : MemoryLedger where
  objects := boundDatabase.objects
  acts := Dict.empty.set (Sample.genesisHash Sample.pad) (Sample.genesis Sample.pad)
  commandIndex := Dict.empty.set "genesis-command" [Sample.genesisHash Sample.pad]
  registry := []
  identities := Dict.empty.set Sample.root.hash Sample.root
  principalBindings := Dict.empty.set ("https://idp", "alice") Sample.root.hash
  registryMetadata :=
    { entries := Sample.names.map fun e =>
        ((e.1, e.2, Sample.genesisHash Sample.pad), boundEntry e)
      nodup := by decide +kernel }

/-- The one Identity has its key wherever it has one. -/
theorem getIdentity_boundDatabase {h : Hash} {cut : Cut} {found : Option Identity}
    (hfound : boundDatabase.getIdentity h cut = .ok found) :
    boundLedger.identities.get? h = found := by
  have hkey : Postgres.decodePublicKey ("0000" ++ Sample.pad) = .ok Sample.root.publicKey := by
    decide +kernel
  rw [Postgres.getIdentity, show boundDatabase.identities.get? h = _ from Dict.get?_set] at hfound
  rw [show boundLedger.identities.get? h = _ from Dict.get?_set]
  by_cases hroot : h = Sample.root.hash
  · rw [if_pos hroot] at hfound ⊢
    dsimp only at hfound
    split at hfound
    · rename_i key hkeys
      have hmem : key ∈ boundDatabase.identityKeys :=
        List.mem_of_mem_filter (hkeys ▸ List.mem_singleton_self key)
      rw [List.mem_singleton.mp hmem, hkey, hroot] at hfound
      cases hfound
      rfl
    · cases hfound
  · rw [if_neg hroot] at hfound ⊢
    cases hfound
    rfl

theorem mirrored_boundLedger : Mirrored Sample.libraries boundDatabase boundLedger where
  coherent := by
    have hnew : MemoryStore.fresh.acts.get? (Sample.genesis Sample.pad).hash = none := rfl
    exact (MemoryStore.coherent_fresh.withAct hnew []).of_eq rfl rfl
  acts := rfl
  objects _ := rfl
  registry := rfl
  definitions e he := by
    have hstored : ∀ e ∈ Sample.names, boundDatabase.objects.get? (Sample.nameHash e.2) =
        some (Sample.text (.dict []), "definition") := by decide +kernel
    obtain ⟨⟨_, e⟩, hentry, rfl⟩ := List.mem_map.mp he
    obtain ⟨name, hname, heq⟩ := List.mem_map.mp hentry
    cases heq
    rw [Postgres.registryEntry, show (boundEntry name).row.hash = Sample.nameHash name.2 from rfl,
      hstored name hname]
    rfl
  identities _ _ _ := getIdentity_boundDatabase
  bindings issuer subject := by
    rw [MemoryLedger.resolvePrincipal, Postgres.resolved_eq,
      show boundLedger.principalBindings.get? _ = _ from Dict.get?_set]
    by_cases hsame : (issuer, subject) = ("https://idp", "alice")
    · cases hsame
      decide +kernel
    · have hnone : (boundDatabase.principalBindings.find? fun b => b.IsLive issuer subject) =
          none := by
        refine List.find?_eq_none.mpr fun b hb => ?_
        rw [List.mem_singleton.mp hb, decide_eq_true_eq]
        exact fun hlive => hsame (Prod.ext hlive.1.symm hlive.2.1.symm)
      rw [if_neg hsame, hnone, Option.map_none, ite_self]
      exact ite_self none

/-- That environment with a database. -/
def hosted : Environment := fun name =>
  if name = "DATABASE_URL" then some "postgresql://powerfarm" else secured name

/-- The server of that environment. -/
def hostedServer : Server where
  runtime := buildRuntimeFromEnv hosted true
  auth := securedServer.auth
  tokenVerifier := securedServer.tokenVerifier

/-- Alice has a thing created, and reads what there is then. -/
def aliceRequests : List Request :=
  [⟨some "alice", .inl (.commit thingInput)⟩, ⟨some "alice", .inr .estateCurrent⟩]

/-- The response of a request that was handed on, and did not fail. -/
def isAnswer : Option Response → Bool
  | some (.ok _) => true
  | _ => false

/-- The ledger in memory answers her as the database does, and history grows in both. -/
theorem session_replicated_alice : ∃ responses t m',
    (aliceRequests.mapM (respond bearing Sample.libraries hostedServer)).run
        (Postgres.handle Sample.libraries) boundDatabase = (.ok responses, t) ∧
      (aliceRequests.mapM (respond bearing Sample.libraries securedServer)).run memoryLedger
        boundLedger = (.ok responses, m') ∧
      (∀ response ∈ responses, isAnswer response = true) ∧ m'.acts.values.length = 2 := by
  have hsession : ((aliceRequests.mapM (respond bearing Sample.libraries hostedServer)).run
        (Postgres.handle Sample.libraries) boundDatabase).1.toOption.any (·.all isAnswer) = true ∧
      ((aliceRequests.mapM (respond bearing Sample.libraries hostedServer)).run
        (Postgres.handle Sample.libraries) boundDatabase).2.acts.length = 2 := by decide +kernel
  rcases hrun : (aliceRequests.mapM (respond bearing Sample.libraries hostedServer)).run
    (Postgres.handle Sample.libraries) boundDatabase with ⟨e | responses, t⟩
  · rw [hrun] at hsession
    cases hsession.1
  rw [hrun] at hsession
  obtain ⟨hanswers, hlength⟩ := hsession
  replace hanswers : ∀ response ∈ responses, isAnswer response = true :=
    List.all_eq_true.mp hanswers
  obtain ⟨m', hrun', hm'⟩ := session_replicated Sample.libraries (fun _ => true) oneToken bearing
    hosted hostedServer securedServer rfl rfl boundDatabase t boundLedger mirrored_boundLedger
    aliceRequests responses hrun fun response hmem => by
      rcases response with failure | output
      · cases hanswers _ hmem
      · exact ⟨output, rfl⟩
  exact ⟨responses, t, m', rfl, hrun', hanswers, by rw [hm'.acts, hlength]⟩

end Protocol

end PowerfarmKernel
