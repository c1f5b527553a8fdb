import PowerfarmKernel.Kernel.Sample
import PowerfarmKernel.Ledger.Postgres
import PowerfarmKernel.Service.Authority

/-!
# Sample requests

What a client does before it calls the service: it hashes the payload, signs the
Command, and writes the signature down in base64url
(`PowerfarmKernel.Sample.signedRequest`). The hashes of a request are 64 digits wide, so
the digest of `PowerfarmKernel.Sample.primitives` is padded to that width here. The
ledger is one after its genesis, with one root Identity, and the service decides by the
Rule the repository comes with, which it looks up in the registry or has at hand.
-/

namespace PowerfarmKernel

namespace Sample

/-! ### The client's side of a request -/

/-- The base64url character for six bits. -/
def base64Char (n : ℕ) : Char :=
  if n < 26 then Char.ofNat (n + 65)
  else if n < 52 then Char.ofNat (n - 26 + 97)
  else if n < 62 then Char.ofNat (n - 52 + 48)
  else if n = 62 then '-' else '_'

/-- The base64url form of some bytes, without padding. -/
def urlsafeB64encode : Bytes → List Char
  | [] => []
  | [a] => [base64Char (a.toNat / 4), base64Char (a.toNat % 4 * 16)]
  | [a, b] => [base64Char (a.toNat / 4), base64Char (a.toNat % 4 * 16 + b.toNat / 16),
      base64Char (b.toNat % 16 * 4)]
  | a :: b :: c :: bytes => base64Char (a.toNat / 4) ::
      base64Char (a.toNat % 4 * 16 + b.toNat / 16) ::
      base64Char (b.toNat % 16 * 4 + c.toNat / 64) :: base64Char (c.toNat % 64) ::
      urlsafeB64encode bytes

/-- The padding that makes a digest a hash. -/
def pad : String := "000000000000000000000000000000000000000000000000000000000000"

/-- The libraries the samples below run with. -/
def libraries : Primitives := primitives pad

/-- The one Identity, at the root of authority. -/
def root : Identity := ⟨"aaaa" ++ pad, "human", List.replicate 32 0⟩

/-- The hash of a payload. -/
def payloadHash (payload : CanonValue) : Hash :=
  match objectHash libraries "payload" payload with
  | .ok h => h
  | .error e => e.message

/-- **A request signed by the root Identity**, its payload supplied, its cuts left to
default. -/
def signedRequest (commandType actType nonce : String) (payload : List (String × CanonValue)) :
    ActionRequest :=
  let command := signed pad root.publicKey
    ⟨commandType, root.hash, payloadHash (.dict payload), [genesisHash pad], nonce, []⟩
  { commandType, identityHash := root.hash, payloadHash := command.payloadHash
    parents := command.parents, nonce, signature := .ofList (urlsafeB64encode command.signature)
    contextValues := Dict.empty, contextTypes := Dict.empty, actType
    payload := some (.dict payload) }

/-- A result read off a computation that was evaluated. -/
theorem ok_of_toOption {ε α : Type} {x : Except ε α} {a : α} (h : x.toOption = some a) :
    x = .ok a := by
  rcases x with e | b
  · cases h
  · cases h
    rfl

/-! ### A service -/

/-- The hash a name is registered under in `database`. -/
def nameHash (name : String) : Hash := digest pad (encode name)

/-- A service that decides by the Rule of genesis. -/
def authority : AuthorityService where
  rules := ConfiguredRuleResolver.resolve (some root.hash)
    [ConfiguredRuleResolver.rootAuthorityName] Dict.empty
  allowSignedWithoutOauth := true

/-- A service with a resolver that hands out the same Rule and asks no store for it. -/
def standingAuthority : AuthorityService where
  rules :=
    { resolve _ _ _ _ :=
        pure [rootAuthorityRule (nameHash ConfiguredRuleResolver.rootAuthorityName) root.hash]
      reads _ _ _ _ := .pure _ }
  allowSignedWithoutOauth := true

/-- The names registered at genesis. -/
def names : List (String × String) :=
  [("command_type", "CreateThing"), ("command_type", "ReviewAuthorization"),
    ("command_type", "LinkPrincipal"), ("command_type", "RevokePrincipal"),
    ("act_type", "ThingCreated"), ("act_type", "CommandSubmitted"),
    ("act_type", "AuthorizationReviewed"), ("act_type", "PrincipalLinked"),
    ("act_type", "PrincipalRevoked"), ("context_type", oauthClient),
    ("context_type", performedBy), ("context_type", requestedBy),
    ("context_type", requesterKind), ("rule", ConfiguredRuleResolver.rootAuthorityName)]

/-- A ledger after its genesis. -/
def office : MemoryLedger := ledger pad [] [root] names

/-- A database after its genesis. -/
def database : Postgres where
  objects := Dict.empty.merge ((genesisHash pad, (text (.dict []), "payload")) ::
    names.map fun e => (digest pad (encode e.2), (text (.dict []), "definition")))
  acts := [genesis pad]
  registry := names.map fun e =>
    ⟨digest pad (encode e.2), e.1, e.2, 1, genesisHash pad, true⟩
  identities := Dict.empty.set root.hash root.kind
  identityKeys := [⟨root.hash, "0000" ++ pad, genesisHash pad, none⟩]
  principalBindings := []

theorem constraints_database : Postgres.Constraints database := by
  refine ⟨List.nodup_singleton _, ?_, ?_, List.nodup_nil⟩
  · exact List.nodup_singleton _
  · intro a ha
    rw [List.mem_singleton.mp ha]
    exact ⟨(text (.dict []), "payload"), by decide +kernel⟩

/-- A thing created after genesis. -/
def thing : Act where
  hash := "1111" ++ pad
  actType := "ThingCreated"
  identityHash := root.hash
  parents := [genesisHash pad]
  decisionCut := {genesisHash pad}
  commandHash := "2222" ++ pad
  authChain := [genesisHash pad]
  registryCut := {genesisHash pad}
  ruleHashes := [digest pad (encode ConfiguredRuleResolver.rootAuthorityName)]
  contextHash := genesisHash pad
  payloadHash := genesisHash pad
  claimedWhen := none

/-- A request for a thing. -/
def createThing : ActionRequest :=
  signedRequest "CreateThing" "ThingCreated" "n-1" [("name", .str "one")]

/-- The stage in which the Command for a thing is submitted. -/
def submitThing : ActionRequest :=
  signedRequest "CreateThing" "CommandSubmitted" "n-1" [("name", .str "one")]

/-- A review of some Command. -/
def reviewThing : ActionRequest :=
  signedRequest "ReviewAuthorization" "AuthorizationReviewed" "r-1"
    [("outcome", .str "allow"), ("reviewed_command_hash", .str root.hash)]

/-- A review that names no Command. -/
def emptyReview : ActionRequest :=
  signedRequest "ReviewAuthorization" "AuthorizationReviewed" "r-2" [("outcome", .str "allow")]

/-- What a link of an external principal to the root Identity says. -/
def alice : List (String × CanonValue) :=
  [("identity_hash", .str root.hash), ("issuer", .str "https://idp"), ("subject", .str "alice")]

/-- The principal is linked. -/
def linkAlice : ActionRequest := signedRequest "LinkPrincipal" "PrincipalLinked" "l-1" alice

/-- The link is revoked. -/
def revokeAlice : ActionRequest := signedRequest "RevokePrincipal" "PrincipalRevoked" "r-1" alice

/-- A thing is to be made, with the chain given. -/
def makeThing (authChain : List Hash) : Submission where
  identity := root
  command := signed pad root.publicKey
    ⟨"CreateThing", root.hash, genesisHash pad, [genesisHash pad], "n-1", []⟩
  decision := ⟨.allow, {genesisHash pad}, [nameHash ConfiguredRuleResolver.rootAuthorityName],
    {genesisHash pad}, ""⟩
  context := ⟨Dict.empty, Dict.empty, fun _ => Iff.rfl⟩
  actType := "ThingCreated"
  authChain := authChain
  claimedWhen := none

end Sample

end PowerfarmKernel
