import PowerfarmKernel.Kernel.Encoding
import PowerfarmKernel.Kernel.Types

/-!
# Requests

What a client sends to the service (`service/models.py`): the parts of a signed Command,
of which nothing is checked yet, the Context it should be decided in, and the cuts to
decide at. A request becomes a Command when its hashes are hashes
and its signature is the base64url form of 64 bytes (`PowerfarmKernel.ActionRequest.command`),
and its Context is completed by the keys only the service may set
(`PowerfarmKernel.ActionRequest.context`).
-/

namespace PowerfarmKernel

/-! ### Failures -/

/-- A `ValidationError`. -/
def validationError (text : String) : Raised := ⟨.validationError, text⟩

/-- An `AuthorizationError`. -/
def authorizationError (text : String) : Raised := ⟨.authorizationError, text⟩

/-- A `NotFoundError`. -/
def notFoundError (text : String) : Raised := ⟨.notFoundError, text⟩

/-- A `ConflictError`. -/
def conflictError (text : String) : Raised := ⟨.conflictError, text⟩

/-! ### Context keys only the service sets -/

/-- Who asked. -/
def requestedBy : String := "request.requested_by"

/-- Whose key signed. -/
def performedBy : String := "request.performed_by"

/-- Of what kind whoever asked is. -/
def requesterKind : String := "request.requester_kind"

/-- The client that presented the request. -/
def oauthClient : String := "request.oauth_client"

/-- The Context keys the service resolves and a caller may never assert, in the order
of their texts. -/
def derivedContextKeys : List String := [oauthClient, performedBy, requestedBy, requesterKind]

/-! ### Hashes and signatures -/

/-- `require_hash`. -/
def requireHash (value field : String) : Except Raised String :=
  if isHash value then .ok value
  else .error (validationError (field ++ " must be a lowercase SHA-256 hash"))

/-- `decode_signature`: the padding a base64url text leaves out is put back first. -/
def decodeSignature (value : String) : Except Raised Bytes :=
  let chars := value.toList
  match urlsafeB64decode (chars ++ List.replicate ((4 - chars.length % 4) % 4) '=') with
  | none => .error (validationError "signature must be base64url")
  | some decoded =>
      if decoded.length ≠ 64 then
        .error (validationError "Ed25519 signature must be 64 bytes")
      else .ok decoded

/-! ### Requests -/

/-- Who is presenting a request to the platform: no scopes, and no authority. -/
structure RequestPrincipal where
  issuer : String
  subject : String
  clientId : String
deriving DecidableEq

/-- **A request for an Act.** A payload of `None` is an absent payload. -/
structure ActionRequest where
  commandType : String
  identityHash : Hash
  payloadHash : Hash
  parents : List Hash
  nonce : String
  signature : String
  contextValues : Dict String CanonValue
  contextTypes : Dict String String
  actType : String
  payload : Option CanonValue := none
  historyCut : Option Cut := none
  registryCut : Option Cut := none
  authChain : List Hash := []
  claimedWhen : Option String := none

/-- One call of a service: what is asked for, and who presents it. -/
structure Call where
  request : ActionRequest
  principal : Option RequestPrincipal

namespace ActionRequest

variable (request : ActionRequest)

/-- Every parent is a hash, the first that is not being named by its index. -/
def requireParents : ℕ → List Hash → Except Raised Unit
  | _, [] => .ok ()
  | index, parent :: parents =>
      match requireHash parent ("parents[" ++ toString index ++ "]") with
      | .error e => .error e
      | .ok _ => requireParents (index + 1) parents

/-- The Command of a request, once its parts are well formed. -/
def command : Except Raised Command := do
  let identityHash ← requireHash request.identityHash "identity_hash"
  let payloadHash ← requireHash request.payloadHash "payload_hash"
  requireParents 0 request.parents
  let signature ← decodeSignature request.signature
  return { commandType := request.commandType, identityHash, payloadHash
           parents := request.parents, nonce := request.nonce, signature }

/-- **The Context of a request**, with the derived keys layered on top. A request that
supplies one of them itself is refused. -/
def context (derived : List (String × String)) : Except Raised Context :=
  let supplied := derivedContextKeys.filter fun key => key ∈ request.contextValues.keys
  if supplied ≠ [] then
    .error (validationError ("Kernel-derived Context keys may not be supplied by the caller: "
      ++ ", ".intercalate supplied))
  else
    Context.build (request.contextValues.merge (derived.map fun e => (e.1, .str e.2)))
      (request.contextTypes.merge (derived.map fun e => (e.1, e.1)))

variable {request}

theorem requireHash_ok {value field h : String} (hh : requireHash value field = .ok h) :
    h = value := by
  rw [requireHash] at hh
  split at hh
  · cases hh
    rfl
  · cases hh

/-- **The Command of a request** has the request's own fields, and the signature it decodes. -/
theorem exists_signature_of_command {c : Command} (h : request.command = .ok c) :
    ∃ signature, decodeSignature request.signature = .ok signature ∧
      c = { commandType := request.commandType, identityHash := request.identityHash
            payloadHash := request.payloadHash, parents := request.parents
            nonce := request.nonce, signature } := by
  rw [command] at h
  rcases hid : requireHash request.identityHash "identity_hash" with e | identityHash
  · rw [hid] at h
    cases h
  rcases hpayload : requireHash request.payloadHash "payload_hash" with e | payloadHash
  · rw [hid, hpayload] at h
    cases h
  rcases hparents : requireParents 0 request.parents with e | x
  · rw [hid, hpayload, hparents] at h
    cases h
  rcases hsig : decodeSignature request.signature with e | signature
  · rw [hid, hpayload, hparents, hsig] at h
    cases h
  rw [hid, hpayload, hparents, hsig] at h
  cases h
  obtain rfl := requireHash_ok hid
  obtain rfl := requireHash_ok hpayload
  exact ⟨signature, rfl, rfl⟩

theorem command_ok {c : Command} (h : request.command = .ok c) :
    c.commandType = request.commandType ∧ c.identityHash = request.identityHash ∧
      c.payloadHash = request.payloadHash ∧ c.parents = request.parents := by
  obtain ⟨signature, -, rfl⟩ := exists_signature_of_command h
  exact ⟨rfl, rfl, rfl, rfl⟩

/-- The signature of a Command is the one its request presents. -/
theorem command_signature {c : Command} (h : request.command = .ok c) :
    decodeSignature request.signature = .ok c.signature := by
  obtain ⟨signature, hsig, rfl⟩ := exists_signature_of_command h
  exact hsig

end ActionRequest

/-- **An action with its Decision**, ready to be committed. -/
structure EvaluatedAction where
  identity : Identity
  command : Command
  context : Context
  decision : Decision
  actType : String
  authChain : List Hash
  payload : Option CanonValue

end PowerfarmKernel
