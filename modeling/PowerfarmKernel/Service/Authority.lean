import PowerfarmKernel.Kernel.Commit
import PowerfarmKernel.Kernel.Rules
import PowerfarmKernel.Service.Identity

/-!
# Exact-cut evaluation and admission

`AuthorityService` of `service/authority.py`. `PowerfarmKernel.AuthorityService.evaluate`
decides a request at the cuts it declares – the current history by default – and writes
nothing. `PowerfarmKernel.AuthorityService.commit` evaluates, replays the consequence a
Command has already bought, and otherwise hands the decided action to the gate, having
stored its payload.

Which Rules apply is the business of a resolver
(`PowerfarmKernel.RuleResolver`); the repository's own one is
`PowerfarmKernel.ConfiguredRuleResolver.resolve`.
-/

namespace PowerfarmKernel

open Prog LedgerM

/-! ### Rules in force -/

/-- **A resolver**: the Rules that apply to a Command at two cuts, found by reading the
ledger. -/
structure RuleResolver where
  resolve : Command → Context → Cut → Cut → LedgerM (List Rule)
  /-- A resolver writes nothing. -/
  reads : ∀ command context historyCut registryCut,
    (resolve command context historyCut registryCut).Only LedgerOp.IsRead

/-- `RootAuthorityRule`: the root Identity may, nobody else may. -/
def rootAuthorityRule (hash rootIdentityHash : Hash) : Rule where
  hash := hash
  contextKeys := ∅
  evaluate identity _ _ _ :=
    if identity.hash = rootIdentityHash then
      .ok ⟨.allow, "Genesis root authority applies"⟩
    else .ok ⟨.deny, "Identity does not hold Genesis root authority"⟩

namespace ConfiguredRuleResolver

/-- The name of the Rule the resolver has an implementation for. -/
def rootAuthorityName : String := "genesis.root_authority"

/-- The Rule configured under a name, given what the registry has under it. -/
def resolveName (rootIdentityHash : Option Hash) (staticRules : Dict String Rule)
    (entries : Dict String RegistryEntry) (name : String) : Except Raised Rule :=
  match staticRules.get? name, entries.get? name with
  | some static, some entry =>
      if static.hash ≠ entry.hash then
        .error (validationError ("configured Rule '" ++ name ++ "' is not registered at cut"))
      else .ok static
  | some _, none =>
      .error (validationError ("configured Rule '" ++ name ++ "' is not registered at cut"))
  | none, entry =>
      match entry with
      | some entry =>
          if name = rootAuthorityName then
            match rootIdentityHash with
            | none => .error (authorizationError "POWERFARM_ROOT_IDENTITY_HASH is required")
            | some root => .ok (rootAuthorityRule entry.hash root)
          else
            .error (validationError
              ("no executable implementation for registered Rule '" ++ name ++ "'"))
      | none =>
          .error (validationError
            ("no executable implementation for registered Rule '" ++ name ++ "'"))

/-- `ConfiguredRuleResolver.resolve`: the configured Rules, in their configured order,
each at the last of its registered versions. -/
def resolve (rootIdentityHash : Option Hash) (ruleNames : List String)
    (staticRules : Dict String Rule) : RuleResolver where
  resolve _ _ _ registryCut := do
    let registered ← registryEntries (some "rule") registryCut
    let entries := Dict.empty.merge (registered.map fun entry => (entry.name, entry))
    ofExcept (ruleNames.mapM (resolveName rootIdentityHash staticRules entries))
  reads _ _ _ _ := .bind (.call trivial) fun _ => .ofExcept _

end ConfiguredRuleResolver

/-! ### The service -/

/-- The configuration of an `AuthorityService`. -/
structure AuthorityService where
  rules : RuleResolver
  allowSignedWithoutOauth : Bool

namespace AuthorityService

variable (P : Primitives) (service : AuthorityService)

/-- `_validate_payload`: a payload that comes with the request is the one the Command
names; one that does not is stored already. -/
def validatePayload (request : ActionRequest) : LedgerM Unit :=
  match request.payload with
  | some payload => do
      let actual ← ofExcept (objectHash P "payload" payload)
      raiseWhen (actual ≠ request.payloadHash)
        (validationError "payload does not match payload_hash")
  | none => do
      let stored ← hasObject request.payloadHash
      raiseWhen (stored = false)
        (notFoundError "payload_hash is not present in CAS and no payload was supplied")

/-- A Context key is registered. -/
def requireContextType (registryCut : Cut) (key : String) : LedgerM Unit := do
  let known ← registered "context_type" key registryCut
  raiseWhen (known = false) (validationError ("unregistered Context type: " ++ key))

/-- `_validate_registry`: the names a request uses are registered. -/
def validateRegistry (request : ActionRequest) (context : Context) (registryCut : Cut) :
    LedgerM Unit := do
  let commandTyped ← registered "command_type" request.commandType registryCut
  raiseWhen (commandTyped = false) (validationError "unregistered command type")
  let actTyped ← registered "act_type" request.actType registryCut
  raiseWhen (actTyped = false) (validationError "unregistered Act type")
  context.values.keys.forM (requireContextType registryCut)

/-- The Identity that performs a Command, as the ledger holds it at a cut. -/
def performer (command : Command) (historyCut : Cut) : LedgerM Identity := do
  let found ← getIdentity command.identityHash historyCut
  match found with
  | none => .raise (notFoundError "Identity or valid signing key not found at declared cut")
  | some identity => return identity

/-- The Context keys the service derives. -/
def derived (identity : Identity) (requester : Hash × String)
    (principal : Option RequestPrincipal) : List (String × String) :=
  [(requestedBy, requester.1), (performedBy, identity.hash), (requesterKind, requester.2),
    (oauthClient, match principal with
      | some principal => principal.clientId
      | none => identity.hash)]

/-- `AuthorityService.evaluate`, once the cuts are fixed. -/
def evaluateAt (request : ActionRequest) (principal : Option RequestPrincipal)
    (command : Command) (historyCut registryCut : Cut) : LedgerM EvaluatedAction := do
  let closed ← isClosedCut historyCut
  raiseWhen (closed = false)
    (validationError "history_cut is unknown or not closed under ancestry")
  let registryClosed ← isClosedCut registryCut
  raiseWhen (registryClosed = false ∨ ¬registryCut ⊆ historyCut)
    (validationError "registry_cut must be an ancestry-closed subset of history_cut")
  let identity ← performer command historyCut
  raiseWhen (command.verifies P identity = false)
    (authorizationError "invalid Command signature at declared cut")
  let requester ← IdentityService.resolveRequester service.allowSignedWithoutOauth identity
    principal historyCut
  let context ← ofExcept (request.context (derived identity requester principal))
  validatePayload P request
  validateRegistry request context registryCut
  let rules ← service.rules.resolve command context historyCut registryCut
  raiseWhen (rules.isEmpty = true)
    (authorizationError "no applicable Rules; authorization fails closed")
  let stray ← rules.anyM fun rule => do
    let known ← registered "rule" rule.hash registryCut
    return !known
  raiseWhen (stray = true) (validationError "Rule is not registered at declared Registry cut")
  let decision ← ofExcept (authorize identity command context historyCut registryCut rules)
  return { identity, command, context, decision, actType := request.actType
           authChain := request.authChain, payload := request.payload }

/-- **`AuthorityService.evaluate`.** The history cut defaults to the current history,
and the registry cut to the history cut. -/
def evaluate (request : ActionRequest) (principal : Option RequestPrincipal) :
    LedgerM EvaluatedAction := do
  let command ← ofExcept request.command
  let currentCut ← historyCut
  let decided := request.historyCut.getD currentCut
  evaluateAt P service request principal command decided (request.registryCut.getD decided)

/-- The call of the gate that an evaluated action makes. -/
def submission (request : ActionRequest) (evaluated : EvaluatedAction) : Submission where
  identity := evaluated.identity
  command := evaluated.command
  decision := evaluated.decision
  context := evaluated.context
  actType := evaluated.actType
  authChain := evaluated.authChain
  claimedWhen := request.claimedWhen

/-- The evaluation that stands behind an Act already in history. -/
def replay (evaluated : EvaluatedAction) (outcome : DecisionKind) (act : Act) : EvaluatedAction :=
  { evaluated with
    decision := ⟨outcome, act.decisionCut, act.ruleHashes, act.registryCut,
      "idempotent replay of existing Act"⟩ }

/-- `_settled_consequence`: the consequential Act a Command has already produced, if
there is one. A re-submission must agree with it. -/
def settledConsequence (evaluated : EvaluatedAction) :
    LedgerM (Option (EvaluatedAction × Act)) := do
  let commandHash ← ofExcept (evaluated.command.hash P)
  let owned ← getActsForCommand commandHash
  match owned.find? fun act => act.actType ∉ lifecycleActTypes with
  | none => return none
  | some act => do
      let different :=
        conflictError "Command already committed with different consequential inputs"
      raiseWhen (act.actType ≠ evaluated.actType ∨ act.identityHash ≠ evaluated.identity.hash ∨
        act.parents ≠ evaluated.command.parents) different
      let contextHash ← ofExcept (evaluated.context.hash P)
      raiseWhen (act.contextHash ≠ contextHash ∨
        act.payloadHash ≠ evaluated.command.payloadHash) different
      return some (replay evaluated .allow act, act)

/-- A payload that came with the request is stored. -/
def storePayload (request : ActionRequest) : LedgerM Unit :=
  match request.payload with
  | none => pure ()
  | some payload => do
      let canon ← ofExcept (canonicalize P payload)
      putObject request.payloadHash canon "payload"

/-- The end of `AuthorityService.commit`: history has not moved since the evaluation,
the payload is stored, and the gate decides. -/
def commitEvaluated (request : ActionRequest) (evaluated : EvaluatedAction) :
    LedgerM (EvaluatedAction × Act) := do
  let cutBefore ← historyCut
  raiseWhen (evaluated.decision.cut ≠ cutBefore)
    (conflictError "history advanced after evaluation; reauthorization required")
  storePayload P request
  let act ← CommitGate.commit P (submission request evaluated)
  -- An occurrence that already held its place is a replay, not a second placement.
  if act.hash ∈ cutBefore then
    return (replay evaluated evaluated.decision.outcome act, act)
  else return (evaluated, act)

/-- What `AuthorityService.commit` does with an evaluated action. -/
def admitEvaluated (request : ActionRequest) (evaluated : EvaluatedAction) :
    LedgerM (EvaluatedAction × Act) := do
  raiseWhen (evaluated.decision.outcome ∉ permittedOutcomes evaluated.actType)
    (authorizationError (outcomeRefusal evaluated.actType evaluated.decision.outcome))
  if evaluated.actType ∉ lifecycleActTypes then do
    let settled ← settledConsequence P evaluated
    match settled with
    | some result => return result
    | none => commitEvaluated P request evaluated
  else commitEvaluated P request evaluated

/-- **`AuthorityService.commit`.** -/
def commit (request : ActionRequest) (principal : Option RequestPrincipal) :
    LedgerM (EvaluatedAction × Act) := do
  let evaluated ← evaluate P service request principal
  admitEvaluated P request evaluated

/-! ### Which operations the service performs -/

variable {P service}

theorem only_validatePayload (request : ActionRequest) :
    (validatePayload P request).Only LedgerOp.IsRead := by
  rw [validatePayload]
  rcases request.payload with _ | payload
  · exact .bind (.call trivial) fun _ => .raiseWhen _ _
  · exact .bind (.ofExcept _) fun _ => .raiseWhen _ _

theorem only_validateRegistry (request : ActionRequest) (context : Context) (registryCut : Cut) :
    (validateRegistry request context registryCut).Only LedgerOp.IsRead := by
  refine .bind (.call trivial) fun _ => .bind (.raiseWhen _ _) fun _ => ?_
  refine .bind (.call trivial) fun _ => .bind (.raiseWhen _ _) fun _ => ?_
  exact .forM (f := requireContextType registryCut)
    (fun _ => .bind (.call trivial) fun _ => .raiseWhen _ _) _

theorem only_performer (command : Command) (cut : Cut) :
    (performer command cut).Only LedgerOp.IsRead := by
  refine .bind (.call trivial) fun found => ?_
  rcases found with _ | identity
  · exact .raise _
  · exact .pure _

/-- **An evaluation reads only.** -/
theorem only_evaluate (request : ActionRequest) (principal : Option RequestPrincipal) :
    (evaluate P service request principal).Only LedgerOp.IsRead := by
  refine .bind (.ofExcept _) fun command => .bind (.call trivial) fun currentCut => ?_
  refine .bind (.call trivial) fun _ => .bind (.raiseWhen _ _) fun _ => ?_
  refine .bind (.call trivial) fun _ => .bind (.raiseWhen _ _) fun _ => ?_
  refine .bind (only_performer _ _) fun identity => .bind (.raiseWhen _ _) fun _ => ?_
  refine .bind (IdentityService.only_resolveRequester _ _ _ _) fun requester => ?_
  refine .bind (.ofExcept _) fun context => .bind (only_validatePayload _) fun _ => ?_
  refine .bind (only_validateRegistry _ _ _) fun _ => ?_
  refine .bind (service.rules.reads _ _ _ _) fun rules => .bind (.raiseWhen _ _) fun _ => ?_
  refine .bind (CommitGate.only_anyM_not (fun _ => .call trivial) _) fun _ => ?_
  exact .bind (.raiseWhen _ _) fun _ => .bind (.ofExcept _) fun _ => .pure _

theorem only_settledConsequence (evaluated : EvaluatedAction) :
    (settledConsequence P evaluated).Only LedgerOp.IsRead := by
  refine .bind (.ofExcept _) fun commandHash => .bind (.call trivial) fun owned => ?_
  dsimp only
  rcases List.find? _ _ with _ | act
  · exact .pure _
  · exact .bind (.raiseWhen _ _) fun _ => .bind (.ofExcept _) fun _ =>
      .bind (.raiseWhen _ _) fun _ => .pure _

theorem only_storePayload (request : ActionRequest) :
    (storePayload P request).Only LedgerOp.IsPlain := by
  rw [storePayload]
  rcases request.payload with _ | payload
  · exact .pure _
  · exact .bind (.ofExcept _) fun _ => .call trivial

end AuthorityService

end PowerfarmKernel
