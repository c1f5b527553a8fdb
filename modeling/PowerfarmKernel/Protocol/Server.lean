import PowerfarmKernel.Protocol.Tools
import PowerfarmKernel.Service.Grounds
import PowerfarmKernel.Service.Requester

/-!
# The protocol server

`create_server` of `protocol/mcp/server.py` joins a runtime, what verifies tokens, and the
tools and resources. The framework that serves requests is a library: it refuses a request
or hands it on with the token it bears (`PowerfarmKernel.Framework`).

Two things follow for a server built from its environment, whoever its clients are, however
many, and in whatever order their calls interleave.

* With OAuth required, every Act that enters history is for an action that the bearer of a token
  of the configured issuer has asked for, whose subject is bound to the Identity the Act's
  Context names as the requester (`PowerfarmKernel.Protocol.authenticated_admissions`).
* With or without OAuth, only the root Identity brings about anything: whatever another
  Identity gets into history is the denial of a Command
  (`PowerfarmKernel.Protocol.root_alone`).
-/

namespace PowerfarmKernel

open Prog Interleaving Runs LedgerM

/-! ### The server -/

/-- **A server**: its runtime, and what verifies the tokens of its requests. -/
structure Server where
  runtime : KernelRuntime
  auth : Option AuthSettings
  tokenVerifier : Option TokenVerifier

/-- **`create_server`.** What is not given is taken from the environment. -/
def createServer (isHttpUrl : String → Bool) (L : Jwt) (env : Environment)
    (runtime : Option KernelRuntime) (authSettings : Option AuthSettings)
    (tokenVerifier : Option TokenVerifier) (authRequired : Option Bool) :
    Except StartupError Server := do
  let (authSettings, tokenVerifier, authRequired) ← match authRequired with
    | none => do
        let (envAuth, envVerifier, required) ← authFromEnv isHttpUrl L env
        pure (authSettings.or envAuth, tokenVerifier.or envVerifier, required)
    | some false => pure (none, none, false)
    | some true => pure (authSettings, tokenVerifier, true)
  if authRequired = true ∧ (authSettings.isNone ∨ tokenVerifier.isNone) then
    .error (.runtimeError "OAuth settings and token verifier are required")
  else return {
    runtime := runtime.getD (buildRuntimeFromEnv env authRequired)
    auth := authSettings
    tokenVerifier }

/-- **The framework**: what it does with a request before a tool or a resource sees it, given
what verifies tokens and the token the request bears. It refuses the request, or hands it on
with a token in its context, or with none. -/
structure Framework where
  accept : Option TokenVerifier → Option String → Option (Option AccessToken)

/-- What the framework documents: with a verifier, a request is handed on with the token it
bears, accepted; without one there is no token. -/
structure Framework.Lawful (F : Framework) : Prop where
  verified : ∀ verify bearer found, F.accept (some verify) bearer = some found →
    ∃ text token, bearer = some text ∧ verify text = .ok (some token) ∧ found = some token
  unverified : ∀ bearer found, F.accept none bearer = some found → found = none

namespace Protocol

/-- **A request of the protocol**: the token it bears, and what it asks for. -/
structure Request where
  bearer : Option String
  asked : Tool ⊕ Resource

/-- **A request asks for an action**: to have it committed, submitted as a review, or admitted
as an observation. -/
def Request.AsksFor (request : Request) (action : ActionInput) : Prop :=
  request.asked = .inl (.commit action) ∨ request.asked = .inl (.submitReview action) ∨
    request.asked = .inl (.admitObservation action)

/-- What the tools and the resources do with a request that was handed on. -/
def respondAs (P : Primitives) (service : AuthorityService) (principal : Option RequestPrincipal) :
    Tool ⊕ Resource → LedgerM Response
  | .inl tool => tool.respond P service principal
  | .inr resource => resource.respond

/-- What the server does with a request; it may refuse it. -/
def respond (F : Framework) (P : Primitives) (server : Server) (request : Request) :
    LedgerM (Option Response) :=
  match F.accept server.tokenVerifier request.bearer with
  | none => return none
  | some token => do
      let response ← respondAs P server.runtime.authority (currentPrincipal token) request.asked
      return some response

/-- A database and the requests the server has for it. -/
def responding {ι : Type} (F : Framework) (P : Primitives) (server : Server) (db : Postgres)
    (requests : ι → Request) : Config LedgerOp.Ret Raised Postgres ι (Option Response) where
  state := db
  rest i := respond F P server (requests i)

variable {ι : Type} {F : Framework} {P : Primitives} {server : Server} {db s : Postgres}
  {vouched : ι → Act → Prop} {i : ι}

open Clients

/-- What is made of a result vouches for nothing more. -/
theorem vouches_map {α β : Type} {p : LedgerM α} {f : α → β}
    (h : Safe (vouching P db vouched) i (fun _ _ => True) p s) :
    Safe (vouching P db vouched) i (fun _ _ => True) (do return f (← p)) s :=
  Safe.bind (h.imp fun _ _ _ _ _ => Safe.pure fun _ _ _ => trivial)

theorem vouches_answer {α : Type} {operation : LedgerM α} {output : α → Except Raised Output}
    (h : Safe (vouching P db vouched) i (fun _ _ => True) operation s) :
    Safe (vouching P db vouched) i (fun _ _ => True) (Tool.answer operation output) s :=
  vouches_map h.attempt

/-- **The server vouches for what its commits vouch for**, and commits what it was asked for:
everything else it does reads. -/
theorem vouches_respond {request : Request}
    (hcommit : ∀ token, F.accept server.tokenVerifier request.bearer = some token →
      ∀ action, request.AsksFor action → ∀ t, Safe (vouching P db vouched) i (fun _ _ => True)
        (AuthorityService.commit P server.runtime.authority action.toService
          (currentPrincipal token)) t) :
    Safe (vouching P db vouched) i (fun _ _ => True) (respond F P server request) s := by
  rw [respond]
  rcases haccept : F.accept server.tokenVerifier request.bearer with _ | token
  · exact Safe.pure fun _ _ _ => trivial
  refine vouches_map ?_
  rcases hasked : request.asked with tool | resource
  · rw [respondAs]
    by_cases hreads : tool.readOnlyHint = true
    · exact vouches_of_isRead (Tool.only_respond hreads)
    · cases tool with
      | commit action => exact vouches_answer (hcommit token haccept action (Or.inl hasked) s)
      | submitReview action =>
        exact vouches_answer (Safe.bind_ofExcept fun _ _ =>
          hcommit token haccept action (Or.inr (Or.inl hasked)) s)
      | admitObservation action =>
        exact vouches_answer (Safe.bind_ofExcept fun _ _ =>
          hcommit token haccept action (Or.inr (Or.inr hasked)) s)
      | _ => exact absurd rfl hreads
  · exact vouches_of_isRead resource.only_respond

/-! ### Servers built from their environment -/

section Deployed

variable {isHttpUrl : String → Bool} {L : Jwt} {env : Environment}

/-- A server built from its environment has the runtime of the environment. -/
theorem runtime_of_createServer
    (h : createServer isHttpUrl L env none none none none = .ok server) :
    ∃ required, server.runtime = buildRuntimeFromEnv env required := by
  rw [createServer] at h
  dsimp only at h
  rcases hauth : authFromEnv isHttpUrl L env with e | ⟨auth, verifier, required⟩
  · rw [hauth] at h
    cases h
  · rw [hauth] at h
    change (if _ then _ else _) = _ at h
    split at h
    · cases h
    · cases h
      exact ⟨required, rfl⟩

/-- **A server that requires OAuth** verifies the tokens of a configured issuer, and takes no
request without a principal. -/
theorem verifier_of_createServer (henabled : enabled (env "POWERFARM_AUTH_REQUIRED") = true)
    (h : createServer isHttpUrl L env none none none none = .ok server) :
    ∃ issuer resource, env "POWERFARM_OAUTH_ISSUER" = some issuer ∧
      env "POWERFARM_MCP_RESOURCE_URL" = some resource ∧
      server.tokenVerifier = some (verifyToken L (jwtSettings env issuer resource)) ∧
      server.runtime = buildRuntimeFromEnv env true := by
  rw [createServer] at h
  dsimp only at h
  rcases hauth : authFromEnv isHttpUrl L env with e | ⟨auth, verifier, required⟩
  · rw [hauth] at h
    cases h
  · obtain ⟨issuer, resource, hissuer, -, hresource, -, rfl, rfl⟩ :=
      authFromEnv_required henabled hauth
    rw [hauth] at h
    change (if _ then _ else _) = _ at h
    split at h
    · cases h
    · cases h
      exact ⟨issuer, resource, hissuer, hresource, rfl, rfl⟩

variable [DecidableEq ι]

/-- **An Act was asked for by an authenticated principal**: the request bears a token that
vouches for the principal, the principal is bound to an Identity, and the Act stands on an
evaluation of the action the request asks for, whose Context names this Identity as the
requester, the one that signs as the performer, and the client of the token. -/
def Authenticated (P : Primitives) (L : Jwt) (settings : JWTSettings) (service : AuthorityService)
    (db : Postgres) (request : Request) (act : Act) : Prop :=
  ∃ bearer p, request.bearer = some bearer ∧ Vouched L settings bearer p ∧
    ∃ requester kind, db.resolvePrincipal p.issuer p.subject = .ok (some requester) ∧
      ∃ action, request.AsksFor action ∧
        ∃ E, Grounds P service db (ActionInput.toService action) (some p) E act ∧
        E.context.hash P = .ok act.contextHash ∧
        E.context.Shows [(requestedBy, requester), (performedBy, act.identityHash),
          (requesterKind, kind), (oauthClient, p.clientId)] ∧
        act.claimedWhen = none

theorem resolvePrincipal_of_requester {allow : Bool} {performer : Identity} {p : RequestPrincipal}
    {cut : Cut} {requester : Hash × String}
    (h : (IdentityService.resolveRequester allow performer (some p) cut).run (Postgres.handle P) db
      = (.ok requester, db)) : db.resolvePrincipal p.issuer p.subject = .ok (some requester.1) := by
  obtain ⟨resolved, t, hresolved, hrest⟩ := run_bind_ok.mp h
  have hcall := Prog.run_call.symm.trans hresolved
  have hfound : db.resolvePrincipal p.issuer p.subject = .ok resolved := congrArg Prod.fst hcall
  rcases resolved with _ | identityHash
  · cases hrest
  · dsimp only at hrest
    split at hrest
    · cases hrest
      exact hfound
    · obtain ⟨found, u, -, hrest⟩ := run_bind_ok.mp hrest
      rcases found with _ | identity
      · cases hrest
      · cases hrest
        exact hfound

/-- **Behind every Act there is a token.** A server is built from an environment that requires
OAuth, over a database; requests of any kind come in, with or without tokens, and are served
in any interleaving. Every Act that is in history afterwards was there before, or was asked
for by an authenticated principal, under the configured issuer. -/
theorem authenticated_admissions (P : Primitives) (isHttpUrl : String → Bool) (L : Jwt)
    (hL : L.Lawful) (F : Framework) (hF : F.Lawful) (env : Environment)
    (henabled : enabled (env "POWERFARM_AUTH_REQUIRED") = true) (server : Server)
    (hserver : createServer isHttpUrl L env none none none none = .ok server) (db : Postgres)
    (hdefined : db.Defined) (requests : ι → Request) (schedule : List ι) :
    ∃ issuer resource, env "POWERFARM_OAUTH_ISSUER" = some issuer ∧
      env "POWERFARM_MCP_RESOURCE_URL" = some resource ∧
      ∀ act ∈ (exec (Postgres.handle P) (responding F P server db requests) schedule).state.acts,
        act ∈ db.acts ∨ ∃ i, Authenticated P L (jwtSettings env issuer resource)
          server.runtime.authority db (requests i) act := by
  obtain ⟨issuer, resource, hissuer, hresource, hverifier, hruntime⟩ :=
    verifier_of_createServer henabled hserver
  refine ⟨issuer, resource, hissuer, hresource, ?_⟩
  refine accounted_exec (fun i act => Authenticated P L (jwtSettings env issuer resource)
    server.runtime.authority db (requests i) act) (responding F P server db requests)
    (fun i => vouches_respond fun token haccept action hasked t => ?_) schedule
  -- The request bears a token that was accepted.
  rw [hverifier] at haccept
  obtain ⟨bearer, accepted, hbearer, hverified, rfl⟩ := hF.verified _ _ _ haccept
  obtain ⟨p, hprincipal, hvouched⟩ := vouched_of_verifyToken hL hverified
  rw [hprincipal, hruntime]
  refine vouches_commit hdefined fun E act hgrounds _ => ?_
  obtain ⟨requester, hrequester, hcontext⟩ := hgrounds.context
  refine ⟨bearer, p, hbearer, hvouched, requester.1, requester.2,
    resolvePrincipal_of_requester hrequester, action, hasked, E, hgrounds, ?_, ?_, ?_⟩
  · obtain ⟨actHash, commandHash, contextHash, -, hhash, rfl⟩ := hgrounds.act
    exact hhash
  · rw [hgrounds.identityHash]
    exact ActionRequest.context_shows
      (AuthorityService.functional_derived E.identity requester (some p)) hcontext
  · obtain ⟨actHash, commandHash, contextHash, -, -, rfl⟩ := hgrounds.act
    rfl

/-! One client with a token, and one without. -/

/-- The environment of a server that requires OAuth. -/
def secured : Environment
  | "POWERFARM_AUTH_REQUIRED" => some "true"
  | "POWERFARM_OAUTH_ISSUER" => some "https://idp"
  | "POWERFARM_MCP_RESOURCE_URL" => some "https://kernel"
  | "POWERFARM_ROOT_IDENTITY_HASH" => some Sample.root.hash
  | _ => none

/-- The claims of a token for Alice. -/
def claimsOfAlice (settings : JWTSettings) : Claims :=
  Dict.empty.merge [("iss", .str settings.issuer), ("aud", .str settings.audience),
    ("sub", .str "alice"), ("exp", .int 1), ("client_id", .str "client")]

/-- A library that accepts one token. -/
def oneToken : Jwt where
  decode settings token := if token = "alice" then some (claimsOfAlice settings) else none
  int
    | .int n => .ok n
    | _ => .error ⟨.typeError, "int"⟩

theorem lawful_oneToken : oneToken.Lawful := by
  have hclaims : ∀ settings token claims, oneToken.decode settings token = some claims →
      claims = claimsOfAlice settings := by
    intro settings token claims h
    rw [oneToken] at h
    dsimp only at h
    split at h
    · exact (Option.some.inj h).symm
    · cases h
  constructor
  · intro settings token claims h
    rw [hclaims settings token claims h]
    rfl
  · intro settings token claims h
    rw [hclaims settings token claims h]
    exact Or.inl rfl
  · intro settings token claims h
    rw [hclaims settings token claims h]
    exact ⟨.int 1, 1, rfl, rfl⟩

/-- A framework that does what it documents. -/
def bearing : Framework where
  accept
    | none, _ => some none
    | some verify, some bearer =>
        match verify bearer with
        | .ok (some token) => some (some token)
        | _ => none
    | some _, none => none

theorem lawful_bearing : bearing.Lawful := by
  constructor
  · intro verify bearer found h
    rcases bearer with _ | text
    · cases h
    · rw [bearing] at h
      dsimp only at h
      split at h
      · rename_i token hverified
        exact ⟨text, token, rfl, hverified, (Option.some.inj h).symm⟩
      · cases h
  · intro bearer found h
    exact (Option.some.inj h).symm

/-- The server of that environment. -/
def securedServer : Server where
  runtime := buildRuntimeFromEnv secured true
  auth := some ⟨"https://idp", "https://kernel", []⟩
  tokenVerifier := some (verifyToken oneToken (jwtSettings secured "https://idp" "https://kernel"))

/-- The database once Alice is bound to the root Identity. -/
def boundDatabase : Postgres :=
  { Sample.database with principalBindings :=
      [⟨"https://idp", "alice", Sample.root.hash, Sample.genesisHash Sample.pad, none⟩] }

/-- A thing is to be created. -/
def thingInput : ActionInput where
  command :=
    { commandType := "CreateThing"
      identityHash := Sample.root.hash
      payloadHash := Sample.createThing.payloadHash
      parents := Sample.createThing.parents
      nonce := "n-1"
      signature := Sample.createThing.signature
      commandType_ne := by decide
      identityHash_isHash := by decide +kernel
      payloadHash_isHash := by decide +kernel
      nonce_ne := by decide }
  context := ⟨Dict.empty, Dict.empty⟩
  actType := "ThingCreated"
  payload := Sample.createThing.payload
  actType_ne := by decide

/-- Both clients want it created, and one of them is Alice. -/
def thingRequests : Bool → Request
  | true => ⟨some "alice", .inl (.commit thingInput)⟩
  | false => ⟨none, .inl (.commit thingInput)⟩

/-- The history the two bring about. -/
theorem exists_admitted : ∃ act ∈ (exec (Postgres.handle Sample.libraries)
    (responding bearing Sample.libraries securedServer boundDatabase thingRequests)
    (List.replicate 3 false ++ List.replicate 36 true)).state.acts,
    act ∉ boundDatabase.acts := by
  decide +kernel

/-- The thing was asked for by Alice. -/
theorem authenticated_admissions_alice : ∃ act i, act ∉ boundDatabase.acts ∧
    Authenticated Sample.libraries oneToken (jwtSettings secured "https://idp" "https://kernel")
      securedServer.runtime.authority boundDatabase (thingRequests i) act := by
  obtain ⟨act, hact, hnew⟩ := exists_admitted
  revert hact
  generalize List.replicate 3 false ++ List.replicate 36 true = schedule
  intro hact
  obtain ⟨issuer, resource, hissuer, hresource, hall⟩ := authenticated_admissions Sample.libraries
    (fun _ => true) oneToken lawful_oneToken bearing lawful_bearing secured (by decide)
    securedServer rfl boundDatabase defined_database thingRequests schedule
  cases hissuer
  cases hresource
  rcases hall act hact with hold | ⟨i, h⟩
  · exact absurd hold hnew
  · exact ⟨act, i, hnew, h⟩

/-- **What the root allows, and what others are denied.** -/
def RootOnly (env : Environment) (act : Act) : Prop :=
  (∀ name ∈ ruleNamesOf env, name = ConfiguredRuleResolver.rootAuthorityName) ∧
    ∃ root, env "POWERFARM_ROOT_IDENTITY_HASH" = some root ∧
      ((act.identityHash = root ∧ act.actType ≠ "ReviewRequested" ∧
          act.actType ≠ "CommandDenied" ∧ act.actType ≠ "AuthorizationResolved") ∨
        (act.identityHash ≠ root ∧ act.actType = "CommandDenied"))

/-- **Only the root brings anything about.** A server is built from its environment, with or
without OAuth, over a database in which no review was ever requested; requests of any kind
are served in any interleaving. Every Act that is in history afterwards was there before, or
no name is configured but that of the built-in Rule, and the Act is the root Identity's, or
else it is the denial of a Command of another Identity. No review is ever requested. -/
theorem root_alone (P : Primitives) (isHttpUrl : String → Bool) (L : Jwt) (F : Framework)
    (env : Environment) (server : Server)
    (hserver : createServer isHttpUrl L env none none none none = .ok server) (db : Postgres)
    (hdefined : db.Defined) (hreviews : ∀ a ∈ db.acts, a.actType ≠ "ReviewRequested")
    (requests : ι → Request) (schedule : List ι) :
    ∀ act ∈ (exec (Postgres.handle P) (responding F P server db requests) schedule).state.acts,
      act ∈ db.acts ∨ RootOnly env act := by
  obtain ⟨required, hruntime⟩ := runtime_of_createServer hserver
  intro act hact
  refine (accounted_exec (fun _ act => RootOnly env act) (responding F P server db requests)
    (fun i => vouches_respond fun token _ action _ t => ?_) schedule act hact).imp_right
      fun ⟨_, h⟩ => h
  rw [hruntime]
  refine vouches_commit hdefined fun E act hgrounds hrequested => ?_
  obtain ⟨rules, hresolve, hsome, -, hdecision⟩ := hgrounds.rules
  obtain ⟨hnames, root, hroot, houtcome⟩ := outcome_of_runtime hresolve hsome hdecision
  have hpermitted := hgrounds.permitted
  rw [← hgrounds.act_actType, houtcome, ← hgrounds.identityHash] at hpermitted
  -- A resolution would link a request for review, and there is none.
  have hresolution : act.actType ≠ "AuthorizationResolved" := by
    intro htype
    obtain ⟨q, hq, hasked, -⟩ := hrequested htype
    rcases hq with hold | ⟨_, -, root', -, ⟨-, hnot, -⟩ | ⟨-, hdenied⟩⟩
    · exact hreviews q hold hasked
    · exact hnot hasked
    · rw [hasked] at hdenied
      exact absurd hdenied (by decide)
  refine ⟨hnames, root, hroot, ?_⟩
  by_cases hsame : act.identityHash = root
  · rw [if_pos hsame] at hpermitted
    refine Or.inl ⟨hsame, ?_, ?_, hresolution⟩
    · intro htype
      rw [htype] at hpermitted
      exact absurd hpermitted (by decide)
    · intro htype
      rw [htype] at hpermitted
      exact absurd hpermitted (by decide)
  · rw [if_neg hsame] at hpermitted
    refine Or.inr ⟨hsame, ?_⟩
    by_contra hother
    rw [permittedOutcomes] at hpermitted
    split_ifs at hpermitted
    · exact absurd hpermitted (by decide)
    · exact absurd hpermitted (by decide)

/-- The thing is created by the root. -/
theorem root_alone_alice : ∃ act, act ∉ boundDatabase.acts ∧ RootOnly secured act := by
  obtain ⟨act, hact, hnew⟩ := exists_admitted
  revert hact
  generalize List.replicate 3 false ++ List.replicate 36 true = schedule
  intro hact
  rcases root_alone Sample.libraries (fun _ => true) oneToken bearing secured securedServer rfl
    boundDatabase defined_database (by decide +kernel) thingRequests schedule act hact with
    hold | h
  · exact absurd hold hnew
  · exact ⟨act, hnew, h⟩

end Deployed

end Protocol

end PowerfarmKernel
