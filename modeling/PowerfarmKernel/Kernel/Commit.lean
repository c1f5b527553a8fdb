import PowerfarmKernel.Kernel.Store

/-!
# The commit gate

`CommitGate.commit` of `kernel/commit.py` is the only way an Act enters history. It
checks, in this order: that the Identity signed the Command; whether this very
occurrence already holds its place, in which case it is returned and nothing else is
looked at; the outcome of the Decision; that the Command has not bought its change
yet; that the authorization chain fits together; that history has not moved since the
Decision; the registrations; the payload and the parents. Only then does it write.

The gate is a program over the store protocol, so the in-memory store and the
database adapter run the same definition. The arguments of a call are bundled in
`PowerfarmKernel.Submission`. Because the early return leaves the rest of the body on
its own, the body is cut there: `PowerfarmKernel.CommitGate.commit` up to the return,
`PowerfarmKernel.CommitGate.commitFresh` from it on.
-/

namespace PowerfarmKernel

open Prog LedgerM

/-- The arguments of one call of `CommitGate.commit`. -/
structure Submission where
  identity : Identity
  command : Command
  decision : Decision
  context : Context
  actType : String
  authChain : List Hash
  claimedWhen : Option String

/-- A `CommitError`. -/
def commitError (text : String) : Raised := ⟨.commitError, text⟩

namespace CommitGate

variable (P : Primitives)

/-- The type of the Commands reviews come from. -/
def reviewCommandType : String := "ReviewAuthorization"

/-! ### The hashed form of an Act -/

/-- **The one representation of an Act**, given the hashes of its Command and its
Context. -/
def actValue (c : Submission) (commandHash contextHash : Hash) : CanonValue :=
  .dict [("act_type", .str c.actType), ("auth_chain", strings c.authChain),
    ("claimed_when", match c.claimedWhen with
      | some claimed => .str claimed
      | none => .null),
    ("command_hash", .str commandHash), ("context_hash", .str contextHash),
    ("decision_cut", strings (sorted c.decision.cut)), ("identity_hash", .str c.identity.hash),
    ("parents", strings c.command.parents), ("payload_hash", .str c.command.payloadHash),
    ("registry_cut", strings (sorted c.decision.registryCut)),
    ("rule_hashes", strings c.decision.ruleHashes)]

/-- `CommitGate._canonical_value`: the hashed form of the Act a call asks for. -/
def canonicalValue (c : Submission) : Except Raised CanonValue :=
  match c.command.hash P with
  | .error e => .error e
  | .ok commandHash =>
      match c.context.hash P with
      | .error e => .error e
      | .ok contextHash => .ok (actValue c commandHash contextHash)

/-- The Act a call asks for. -/
def actOf (c : Submission) (actHash commandHash contextHash : Hash) : Act where
  hash := actHash
  actType := c.actType
  identityHash := c.identity.hash
  parents := c.command.parents
  decisionCut := c.decision.cut
  commandHash := commandHash
  authChain := c.authChain
  registryCut := c.decision.registryCut
  ruleHashes := c.decision.ruleHashes
  contextHash := contextHash
  payloadHash := c.command.payloadHash
  claimedWhen := c.claimedWhen

/-! ### The structural proof -/

/-- The Command a stored review payload names, when its bytes are a JSON object with
that field a string. -/
def declaredTarget (canon : Bytes) : Option String :=
  match P.loads canon with
  | some (.dict payload) => stringField payload "reviewed_command_hash"
  | _ => none

/-- `CommitGate._reviewed_command`. -/
def reviewedCommand (payloadHash : Hash) : LedgerM (Option String) := do
  let canon ← objectCanon payloadHash
  return canon.bind (declaredTarget P)

/-- `CommitGate._require_structural_proof`: whether the parts of an authorization
chain fit together. Links to unknown Acts are dropped before anything is asked of the
chain. `commandHash` is the hash of `command`. -/
def requireStructuralProof (command : Command) (commandHash : Hash) (actType : String)
    (authChain : List Hash) : LedgerM Unit :=
  if actType = "AuthorizationReviewed" then do
    raiseWhen (command.commandType ≠ reviewCommandType)
      (commitError ("AuthorizationReviewed must come from a " ++ reviewCommandType ++ " Command"))
    let target ← reviewedCommand P command.payloadHash
    raiseWhen (target = none) (commitError "review payload must declare reviewed_command_hash")
  else do
    let links ← authChain.mapM getAct
    let linked := links.reduceOption
    if actType = "AuthorizationResolved" then do
      raiseWhen (linked.any (fun act =>
          act.actType = "ReviewRequested" ∧ act.commandHash = commandHash) = false)
        (commitError "AuthorizationResolved requires the ReviewRequested it resolves")
      let reviews := linked.filter fun act => act.actType = "AuthorizationReviewed"
      raiseWhen (reviews = [])
        (commitError "AuthorizationResolved requires an AuthorizationReviewed")
      let elsewhere ← reviews.anyM fun act => do
        let target ← reviewedCommand P act.payloadHash
        return target ≠ some commandHash
      raiseWhen (elsewhere = true)
        (commitError "AuthorizationReviewed reviews a different Command")
    else if actType ∈ lifecycleActTypes then
      pure ()
    else do
      -- While review is pending the Command is blocked: it may not reach consequence
      -- without a resolution of its own in the chain.
      let owned ← getActsForCommand commandHash
      let underReview := owned.any fun act => act.actType = "ReviewRequested"
      let resolved := linked.any fun act =>
        act.actType = "AuthorizationResolved" ∧ act.commandHash = commandHash
      raiseWhen (underReview = true ∧ resolved = false)
        (commitError "Command under review requires a resolved authorization chain")

/-! ### The gate -/

/-- Whether a Command that asks for a consequence already has one: one Command buys
one change. -/
def alreadySettled (actType : String) (commandHash : Hash) : LedgerM Bool :=
  if actType ∉ lifecycleActTypes then do
    let owned ← getActsForCommand commandHash
    return owned.any fun act => act.actType ∉ lifecycleActTypes
  else pure false

/-- The end of `CommitGate.commit`: the three objects are stored and the Act is
handed to the store. -/
def write (c : Submission) (value : CanonValue) (actHash commandHash contextHash : Hash) :
    LedgerM Act := do
  let commandCanon ← ofExcept (canonicalize P c.command.signingValue)
  putObject commandHash commandCanon "command"
  let contextCanon ← ofExcept (canonicalize P c.context.canonicalValue)
  putObject contextHash contextCanon "context"
  Prog.mapError (fun _ => commitError "store rejected Act") do
    let canon ← ofExcept (canonicalize P value)
    commitAct (actOf c actHash commandHash contextHash) canon c.command.commandType

/-- **The body of `CommitGate.commit` once the occurrence is known to be new.** -/
def commitFresh (c : Submission) (value : CanonValue) (actHash : Hash) : LedgerM Act := do
  raiseWhen (c.decision.outcome ∉ permittedOutcomes c.actType)
    (commitError (outcomeRefusal c.actType c.decision.outcome))
  let commandHash ← ofExcept (c.command.hash P)
  let contextHash ← ofExcept (c.context.hash P)
  let settled ← alreadySettled c.actType commandHash
  raiseWhen (settled = true) (commitError "Command already produced a consequential Act")
  requireStructuralProof P c.command commandHash c.actType c.authChain
  let currentCut ← historyCut
  raiseWhen (currentCut ≠ c.decision.cut)
    (commitError "history advanced after authorization; reauthorization required")
  let commandTyped ← registered "command_type" c.command.commandType c.decision.registryCut
  raiseWhen (commandTyped = false) (commitError "unregistered command type")
  let actTyped ← registered "act_type" c.actType c.decision.registryCut
  raiseWhen (actTyped = false) (commitError "unregistered act type")
  raiseWhen (c.decision.ruleHashes = [])
    (commitError "consequential commit requires at least one Rule")
  let strayRule ← c.decision.ruleHashes.anyM fun ruleHash => do
    let known ← registered "rule" ruleHash c.decision.registryCut
    return !known
  raiseWhen (strayRule = true) (commitError "unregistered Rule at declared Registry cut")
  let strayKey ← c.context.values.keys.anyM fun key => do
    let known ← registered "context_type" key c.decision.registryCut
    return !known
  raiseWhen (strayKey = true)
    (commitError "unregistered Context type at declared Registry cut")
  let stored ← hasObject c.command.payloadHash
  raiseWhen (stored = false) (commitError "payload must already exist in CAS")
  let orphan ← c.command.parents.anyM fun parent => do
    let known ← hasAct parent
    return !known
  raiseWhen (orphan = true) (commitError "every parent must be an existing Act")
  write P c value actHash commandHash contextHash

/-- **`CommitGate.commit`.** An occurrence that already holds its place in history is
returned as it is; identity is content, so nothing else is compared. -/
def commit (c : Submission) : LedgerM Act := do
  raiseWhen (c.identity.hash ≠ c.command.identityHash) (commitError "identity mismatch")
  raiseWhen (c.command.verifies P c.identity = false) (commitError "invalid command signature")
  let value ← ofExcept (canonicalValue P c)
  let actHash ← ofExcept (objectHash P "act" value)
  let existing ← getAct actHash
  match existing with
  | some act => return act
  | none => commitFresh P c value actHash

/-! ### Which operations the gate performs -/

variable {P}

theorem only_reviewedCommand (payloadHash : Hash) :
    (reviewedCommand P payloadHash).Only LedgerOp.IsGateRead :=
  .bind (.call trivial) fun _ => .pure _

/-- A search through a list performs what its test performs. -/
theorem only_anyM_not {α : Type} {φ : LedgerOp → Prop} {f : α → LedgerM Bool}
    (hf : ∀ a, (f a).Only φ) (l : List α) : (l.anyM fun a => do
      let known ← f a
      return !known).Only φ :=
  .anyM (fun a => .bind (hf a) fun _ => .pure _) l

/-- The structural check reads only. -/
theorem only_requireStructuralProof (command : Command) (commandHash : Hash) (actType : String)
    (authChain : List Hash) :
    (requireStructuralProof P command commandHash actType authChain).Only
      LedgerOp.IsGateRead := by
  have hlinks : (authChain.mapM getAct).Only LedgerOp.IsGateRead :=
    .mapM (f := getAct) (fun _ => .call trivial) authChain
  refine .ite ?_ (.bind hlinks fun links => ?_)
  · exact .bind (.raiseWhen _ _) fun _ => .bind (only_reviewedCommand _) fun _ => .raiseWhen _ _
  · refine .ite ?_ (.ite (.pure _) ?_)
    · refine .bind (.raiseWhen _ _) fun _ => .bind (.raiseWhen _ _) fun _ => .bind ?_ fun _ =>
        .raiseWhen _ _
      exact .anyM (fun _ => .bind (only_reviewedCommand _) fun _ => .pure _) _
    · exact .bind (.call trivial) fun _ => .raiseWhen _ _

theorem only_alreadySettled (actType : String) (commandHash : Hash) :
    (alreadySettled actType commandHash).Only LedgerOp.IsGateRead :=
  .ite (.bind (.call trivial) fun _ => .pure _) (.pure _)

end CommitGate

end PowerfarmKernel
