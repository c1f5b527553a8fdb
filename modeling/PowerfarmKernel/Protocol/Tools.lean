import PowerfarmKernel.Lib.Base64
import PowerfarmKernel.Protocol.Auth
import PowerfarmKernel.Service.Doors
import PowerfarmKernel.Service.Explain
import PowerfarmKernel.Service.Failures
import PowerfarmKernel.Service.Lifecycle

/-!
# Tools and resources

What a client of the protocol can ask for: six tools over the services
(`protocol/mcp/tools.py`) and six resources over the ledger (`protocol/mcp/resources.py`).
The gate and the bindings of principals are not among them.

An input was checked against its schema before a tool sees it
(`PowerfarmKernel.ActionInput`), and it becomes a request without a claimed time. Of the
tools, those that say they only read do (`PowerfarmKernel.Tool.only_respond`), and so does
every resource.
-/

namespace PowerfarmKernel

open Prog LedgerM

/-! ### Inputs -/

/-- **The parts of a signed Command**, as the schema admits them. -/
structure CommandInput where
  commandType : String
  identityHash : String
  payloadHash : String
  parents : List String := []
  nonce : String
  signature : String
  commandType_ne : commandType ≠ ""
  identityHash_isHash : isHash identityHash = true
  payloadHash_isHash : isHash payloadHash = true
  nonce_ne : nonce ≠ ""

/-- The Context a Command should be decided in. -/
structure ContextInput where
  values : Dict String CanonValue
  types : Dict String String

/-- **The input of a tool that commits or evaluates.** A payload of JSON `null` is an absent
payload. -/
structure ActionInput where
  command : CommandInput
  context : ContextInput
  actType : String
  payload : Option CanonValue := none
  historyCut : Option (List String) := none
  registryCut : Option (List String) := none
  authChain : List String := []
  actType_ne : actType ≠ ""

/-- `ActionInput.to_service`. -/
def ActionInput.toService (action : ActionInput) : ActionRequest where
  commandType := action.command.commandType
  identityHash := action.command.identityHash
  payloadHash := action.command.payloadHash
  parents := action.command.parents
  nonce := action.command.nonce
  signature := action.command.signature
  contextValues := action.context.values
  contextTypes := action.context.types
  actType := action.actType
  payload := action.payload
  historyCut := action.historyCut.map List.toFinset
  registryCut := action.registryCut.map List.toFinset
  authChain := action.authChain

/-! ### Outputs -/

/-- The Decision of an evaluation. -/
structure DecisionOutput where
  outcome : String
  reason : String
  historyCut : List String
  registryCut : List String
  ruleHashes : List String

/-- An evaluation. -/
structure EvaluationOutput where
  actType : String
  commandHash : String
  contextHash : String
  decision : DecisionOutput
  identityHash : String
  payloadHash : String

/-- `EvaluatedAction.as_dict`. -/
def EvaluatedAction.asDict (P : Primitives) (evaluated : EvaluatedAction) :
    Except Raised EvaluationOutput := do
  let commandHash ← evaluated.command.hash P
  let contextHash ← evaluated.context.hash P
  return {
    actType := evaluated.actType
    commandHash
    contextHash
    decision := {
      outcome := evaluated.decision.outcome.value
      reason := evaluated.decision.reason
      historyCut := sorted evaluated.decision.cut
      registryCut := sorted evaluated.decision.registryCut
      ruleHashes := evaluated.decision.ruleHashes }
    identityHash := evaluated.identity.hash
    payloadHash := evaluated.command.payloadHash }

/-- **What a tool or a resource answers.** -/
inductive Output where
  | evaluation (evaluation : EvaluationOutput)
  | commit (evaluation : EvaluationOutput) (act : CanonValue)
  | explanation (explanation : ExplainService.Explanation)
  /-- The Command, its consequential Act and its status text; its stages are left out. -/
  | lifecycle (commandHash : Hash) (consequentialAct : Option Hash) (status : String)
  /-- A JSON document. -/
  | document (value : CanonValue)
  /-- The bytes of an object, as text. -/
  | text (canon : Bytes)

/-- **How a call fails.** -/
inductive Failure where
  /-- A failure of the service, under its own code. -/
  | reported (e : MCPError)
  /-- `ResourceNotFoundError`. -/
  | resourceNotFound (text : String)
  /-- Any other exception, as it was raised. -/
  | escaped (e : Raised)

/-- The answer to a call. -/
abbrev Response := Except Failure Output

/-! ### Tools -/

/-- **A call of a tool.** -/
inductive Tool where
  /-- `powerfarm.action.evaluate`. -/
  | evaluate (action : ActionInput)
  /-- `powerfarm.action.commit`. -/
  | commit (action : ActionInput)
  /-- `powerfarm.review.submit`. -/
  | submitReview (action : ActionInput)
  /-- `powerfarm.observation.admit`. -/
  | admitObservation (action : ActionInput)
  /-- `powerfarm.action.explain`. -/
  | explain (actHash : String)
  /-- `powerfarm.command.status`. -/
  | commandStatus (commandHash : String)

namespace Tool

/-- The annotation `read_only_hint`. -/
def readOnlyHint : Tool → Bool
  | evaluate _ => true
  | commit _ => false
  | submitReview _ => false
  | admitObservation _ => false
  | explain _ => true
  | commandStatus _ => true

/-- The output of a commit. -/
def commitOutput (P : Primitives) (result : EvaluatedAction × Act) : Except Raised Output := do
  let evaluation ← result.1.asDict P
  return .commit evaluation (actToDict result.2)

/-- A call through `call_service`, and what the tool makes of its result. -/
def answer {α : Type} (operation : LedgerM α) (output : α → Except Raised Output) :
    LedgerM Response := do
  let result ← operation.attempt
  return match callService result with
    | .ok a => (output a).mapError .escaped
    | .error (.inl e) => .error (.reported e)
    | .error (.inr e) => .error (.escaped e)

/-- **What a tool does**, for a principal. -/
def respond (P : Primitives) (service : AuthorityService)
    (principal : Option RequestPrincipal) : Tool → LedgerM Response
  | evaluate action =>
      answer (AuthorityService.evaluate P service action.toService principal) fun evaluated => do
        let evaluation ← evaluated.asDict P
        return .evaluation evaluation
  | commit action =>
      answer (AuthorityService.commit P service action.toService principal) (commitOutput P)
  | submitReview action =>
      answer (ReviewService.submit P service action.toService principal) (commitOutput P)
  | admitObservation action =>
      answer (ObservationService.admitObservation P service action.toService principal)
        (commitOutput P)
  | explain actHash => answer (ExplainService.action P actHash) fun result =>
      .ok (.explanation result)
  | commandStatus commandHash => answer (LifecycleService.status commandHash) fun result =>
      .ok (.lifecycle result.commandHash result.consequentialAct result.status)

variable {P : Primitives} {service : AuthorityService} {principal : Option RequestPrincipal}

theorem only_answer {α : Type} {φ : LedgerOp → Prop} {operation : LedgerM α}
    {output : α → Except Raised Output} (h : operation.Only φ) : (answer operation output).Only φ :=
  .bind h.attempt fun _ => .pure _

/-- **A tool that says it only reads does.** -/
theorem only_respond {tool : Tool} (h : tool.readOnlyHint = true) :
    (tool.respond P service principal).Only LedgerOp.IsRead := by
  cases tool with
  | evaluate action => exact only_answer (AuthorityService.only_evaluate _ _)
  | commit action => cases h
  | submitReview action => cases h
  | admitObservation action => cases h
  | explain actHash =>
    refine only_answer (.bind (.call trivial) fun found => ?_)
    rcases found with _ | act
    · exact .raise _
    · exact .bind (.call trivial) fun _ => .bind (.call trivial) fun _ =>
        .bind (.call trivial) fun _ => .pure _
  | commandStatus commandHash => exact only_answer (.bind (.call trivial) fun _ => .pure _)

end Tool

/-! ### Resources -/

/-- **A resource**, by its address. -/
inductive Resource where
  /-- `pf://registry/current`. -/
  | registryCurrent
  /-- `pf://rules/current`. -/
  | rulesCurrent
  /-- `pf://estate/current`. -/
  | estateCurrent
  /-- `pf://acts/{act_hash}`. -/
  | act (actHash : String)
  /-- `pf://commands/{command_hash}`. -/
  | command (commandHash : String)
  /-- `pf://estate/identities/{identity_hash}`. -/
  | identity (identityHash : String)

namespace Resource

/-- `_entry`. -/
def entry (entry : RegistryEntry) : CanonValue := .dict
  [("hash", .str entry.hash), ("kind", .str entry.kind), ("name", .str entry.name),
    ("version", .int entry.version), ("born_at", .str entry.bornAt),
    ("constitutional", .bool entry.constitutional), ("definition", entry.definition)]

/-- The document of an Identity at a cut. -/
def identityDocument (identity : Identity) (cut : Cut) : CanonValue := .dict
  [("hash", .str identity.hash), ("kind", .str identity.kind),
    ("public_key", .str (String.ofList
      ((Base64.urlsafeEncode identity.publicKey).rdropWhile (· = '=')))),
    ("cut", strings (sorted cut))]

/-- What a resource reads, and its content. -/
def content : Resource → LedgerM (Except String Output)
  | registryCurrent => do
      let cut ← historyCut
      let entries ← registryEntries none cut
      return .ok (.document (.dict
        [("cut", strings (sorted cut)), ("entries", .list (entries.map entry))]))
  | rulesCurrent => do
      let cut ← historyCut
      let entries ← registryEntries (some "rule") cut
      return .ok (.document (.dict
        [("cut", strings (sorted cut)), ("rules", .list (entries.map entry))]))
  | estateCurrent => do
      let cut ← historyCut
      return .ok (.document (.dict
        [("cut", strings (sorted cut)), ("act_count", .int cut.card)]))
  | act actHash => do
      let found ← getAct actHash
      return match found with
        | none => .error ("Act " ++ actHash ++ " not found")
        | some found => .ok (.document (actToDict found))
  | command commandHash => do
      let found ← getObject commandHash
      return match found with
        | none => .error ("Command " ++ commandHash ++ " not found")
        | some record =>
            if record.kind ≠ "command" then .error ("Command " ++ commandHash ++ " not found")
            else .ok (.text record.canon)
  | identity identityHash => do
      let cut ← historyCut
      let found ← getIdentity identityHash cut
      return match found with
        | none => .error ("Identity " ++ identityHash ++ " not found")
        | some found => .ok (.document (identityDocument found cut))

/-- **What reading a resource answers.** -/
def respond (resource : Resource) : LedgerM Response := do
  let result ← resource.content.attempt
  return match result with
    | .ok (.ok output) => .ok output
    | .ok (.error text) => .error (.resourceNotFound text)
    | .error e => .error (.escaped e)

/-- **Resources are read.** -/
theorem only_respond (resource : Resource) : resource.respond.Only LedgerOp.IsRead := by
  refine .bind (.attempt ?_) fun _ => .pure _
  cases resource with
  | registryCurrent => exact .bind (.call trivial) fun _ => .bind (.call trivial) fun _ => .pure _
  | rulesCurrent => exact .bind (.call trivial) fun _ => .bind (.call trivial) fun _ => .pure _
  | estateCurrent => exact .bind (.call trivial) fun _ => .pure _
  | act actHash => exact .bind (.call trivial) fun _ => .pure _
  | command commandHash => exact .bind (.call trivial) fun _ => .pure _
  | identity identityHash =>
    exact .bind (.call trivial) fun _ => .bind (.call trivial) fun _ => .pure _

end Resource

end PowerfarmKernel
