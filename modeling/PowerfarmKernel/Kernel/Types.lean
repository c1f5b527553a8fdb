import PowerfarmKernel.Lib.Dict
import PowerfarmKernel.Kernel.Canon

/-!
# The values crossing the kernel boundary

The frozen dataclasses of `kernel/types.py`, and the two tables the whole review
discipline rests on: which authorization outcome may produce which Act
(`PowerfarmKernel.permittedOutcomes`), and which Act types are stages of a Command
rather than the change it asks for (`PowerfarmKernel.lifecycleActTypes`).

A Context whose values and types do not have the same keys cannot be built:
`PowerfarmKernel.Context` carries the proof, and `PowerfarmKernel.Context.build` is the
constructor that refuses.
-/

namespace PowerfarmKernel

/-! ### Outcomes and Act types -/

/-- The three outcomes of an authorization. -/
inductive DecisionKind where
  | allow
  | deny
  | requireReview
deriving DecidableEq, Repr

/-- The text of an outcome. -/
def DecisionKind.value : DecisionKind → String
  | .allow => "allow"
  | .deny => "deny"
  | .requireReview => "require_review"

/-- What a consequential Act requires. -/
def consequentialOutcomes : List DecisionKind := [.allow]

/-- **Which authorization outcome may produce which Act.** A stage declares the
outcome that is its own evidence; everything absent from the table requires
`allow`. The outcomes stand in the order of their texts. -/
def permittedOutcomes (actType : String) : List DecisionKind :=
  if actType = "ReviewRequested" then [.requireReview]
  else if actType = "CommandDenied" then [.deny]
  else if actType = "AuthorizationResolved" then [.allow, .deny]
  else consequentialOutcomes

/-- The text of an outcome refused for an Act type. -/
def outcomeRefusal (actType : String) (outcome : DecisionKind) : String :=
  actType ++ " requires " ++ "/".intercalate ((permittedOutcomes actType).map DecisionKind.value)
    ++ ", got " ++ outcome.value

/-- **The stages of a Command's trajectory.** A Command may hold many Acts of these
types; an Act of any other type is *consequential*. -/
def lifecycleActTypes : List String :=
  ["CommandSubmitted", "CommandValidated", "CommandRejected", "AuthorizationRequested",
    "CommandDenied", "ReviewRequested", "AuthorizationReviewed", "AuthorizationResolved",
    "CommandSuperseded", "CommandExpired"]

theorem reviewed_mem_lifecycle : "AuthorizationReviewed" ∈ lifecycleActTypes := by
  simp [lifecycleActTypes]

theorem resolved_mem_lifecycle : "AuthorizationResolved" ∈ lifecycleActTypes := by
  simp [lifecycleActTypes]

/-- An Act type outside the lifecycle is admitted under `allow` alone. -/
theorem permittedOutcomes_of_consequential {actType : String}
    (h : actType ∉ lifecycleActTypes) : permittedOutcomes actType = [.allow] := by
  have h1 : actType ≠ "ReviewRequested" := by
    rintro rfl
    exact h (by simp [lifecycleActTypes])
  have h2 : actType ≠ "CommandDenied" := by
    rintro rfl
    exact h (by simp [lifecycleActTypes])
  have h3 : actType ≠ "AuthorizationResolved" := by
    rintro rfl
    exact h (by simp [lifecycleActTypes])
  rw [permittedOutcomes, if_neg h1, if_neg h2, if_neg h3, consequentialOutcomes]

/-! ### Identities, Contexts and Commands -/

/-- An institutional participant, with the key that signs for it. -/
structure Identity where
  hash : Hash
  kind : String
  publicKey : Bytes
deriving DecidableEq

/-- **The governed inputs of a decision**: every value has exactly one registered
type. -/
structure Context where
  values : Dict String CanonValue
  types : Dict String String
  /-- A Context with a value and no type, or a type and no value, does not exist. -/
  keys_eq : ∀ k, k ∈ values.keys ↔ k ∈ types.keys

namespace Context

/-- `Context(values, types)`, as the dataclass checks it after construction. -/
def build (values : Dict String CanonValue) (types : Dict String String) :
    Except Raised Context :=
  if h : values.keySet = types.keySet then
    .ok ⟨values, types, fun k => by
      rw [← Dict.mem_keySet, ← Dict.mem_keySet, h]⟩
  else
    .error ⟨.valueError, "every context value must have exactly one registered type"⟩

/-- The hashed form of a Context. -/
def canonicalValue (context : Context) : CanonValue :=
  .dict [("types", .dict (context.types.entries.map fun e => (e.1, .str e.2))),
    ("values", .dict context.values.entries)]

/-- The identity of a Context. -/
def hash (P : Primitives) (context : Context) : Except Raised Hash :=
  objectHash P "context" context.canonicalValue

end Context

/-- **A signed intention**: what an Identity proposes, over which payload, after which
Acts. -/
structure Command where
  commandType : String
  identityHash : Hash
  payloadHash : Hash
  parents : List Hash
  nonce : String
  signature : Bytes

namespace Command

/-- The part of a Command its signature covers, and its identity is taken over. -/
def signingValue (command : Command) : CanonValue :=
  .dict [("command_type", .str command.commandType), ("identity_hash", .str command.identityHash),
    ("nonce", .str command.nonce), ("parents", strings command.parents),
    ("payload_hash", .str command.payloadHash)]

/-- The identity of a Command. -/
def hash (P : Primitives) (command : Command) : Except Raised Hash :=
  objectHash P "command" command.signingValue

/-- `Ed25519PublicKey.verify` over the canonical Command; a key or a Command that
cannot be encoded fails like a wrong signature. -/
def verifies (P : Primitives) (identity : Identity) (command : Command) : Bool :=
  match canonicalize P command.signingValue with
  | .ok canon => P.verify identity.publicKey command.signature canon
  | .error _ => false

end Command

/-! ### Decisions and Acts -/

/-- **The outcome of an authorization**, with the cuts it was taken at and the Rules
that took it. -/
structure Decision where
  outcome : DecisionKind
  cut : Cut
  ruleHashes : List Hash
  registryCut : Cut
  reason : String

/-- **An occurrence in history.** -/
structure Act where
  hash : Hash
  actType : String
  identityHash : Hash
  parents : List Hash
  decisionCut : Cut
  commandHash : Hash
  authChain : List Hash
  registryCut : Cut
  ruleHashes : List Hash
  contextHash : Hash
  payloadHash : Hash
  claimedWhen : Option String
deriving DecidableEq

namespace Act

/-- A stage of its Command's trajectory. -/
def IsLifecycle (act : Act) : Prop := act.actType ∈ lifecycleActTypes

instance (act : Act) : Decidable act.IsLifecycle :=
  inferInstanceAs (Decidable (act.actType ∈ lifecycleActTypes))

/-- The change its Command asked for. -/
def IsConsequential (act : Act) : Prop := act.actType ∉ lifecycleActTypes

instance (act : Act) : Decidable act.IsConsequential :=
  inferInstanceAs (Decidable (act.actType ∉ lifecycleActTypes))

end Act

end PowerfarmKernel
