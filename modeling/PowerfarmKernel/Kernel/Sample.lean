import PowerfarmKernel.Ledger.Memory
import PowerfarmKernel.Kernel.Commit

/-!
# Sample libraries

The libraries of `PowerfarmKernel.Primitives` are parameters, and a run on concrete
inputs needs some. `PowerfarmKernel.Sample.primitives` are small functions one can
evaluate: its encoder is the canonical JSON form of values without floats, whose
mappings stand in key order and whose strings need no escape; its reader reads flat
objects of strings back; its digest is a short checksum, padded to the width asked for;
its signatures are a digest keyed by the public key.
-/

namespace PowerfarmKernel

namespace Sample

/-! ### The encoder and the reader -/

/-- A string between quotation marks. -/
def quoted (s : String) : Bytes := 34 :: (encode s ++ [34])

mutual

/-- The JSON text of a value. -/
def text : CanonValue → Bytes
  | .null => encode "null"
  | .bool b => encode (if b then "true" else "false")
  | .int n => encode (toString n)
  | .float _ => encode "0"
  | .str s => quoted s
  | .list items => 91 :: (texts items ++ [93])
  | .dict items => 123 :: (fields items ++ [125])

/-- The items of a sequence, with commas between them. -/
def texts : List CanonValue → Bytes
  | [] => []
  | [item] => text item
  | item :: items => text item ++ 44 :: texts items

/-- The items of a mapping, with commas between them. -/
def fields : List (String × CanonValue) → Bytes
  | [] => []
  | [(key, item)] => quoted key ++ 58 :: text item
  | (key, item) :: items => quoted key ++ 58 :: (text item ++ 44 :: fields items)

end

/-- The pieces of a text between quotation marks. -/
def pieces : Bytes → List Bytes
  | [] => [[]]
  | b :: bytes =>
      if b = 34 then [] :: pieces bytes
      else match pieces bytes with
        | [] => [[b]]
        | piece :: rest => (b :: piece) :: rest

/-- A string from its bytes, one character each. -/
def decode (bytes : Bytes) : String := .ofList (bytes.map fun b => Char.ofNat b.toNat)

/-- The fields of a flat object of strings. -/
def readFields : List Bytes → Option (List (String × CanonValue))
  | [_] => some []
  | _ :: key :: _ :: item :: rest =>
      (readFields rest).map fun items => (decode key, .str (decode item)) :: items
  | _ => none

/-- Read a flat object of strings. -/
def read (bytes : Bytes) : Option CanonValue := (readFields (pieces bytes)).map .dict

/-! ### The digest -/

/-- The last hexadecimal digits of a number. -/
def hexDigits : ℕ → ℕ → List Char
  | 0, _ => []
  | width + 1, n => hexDigits width (n / 16) ++ [Nat.digitChar (n % 16)]

/-- A checksum of four hexadecimal digits, followed by `pad`. -/
def digest (pad : String) (bytes : Bytes) : Hash :=
  .ofList (hexDigits 4 (bytes.foldl (fun n b => (n * 31 + b.toNat) % 65521) 7)) ++ pad

theorem length_hexDigits (width n : ℕ) : (hexDigits width n).length = width := by
  induction width generalizing n with
  | zero => rfl
  | succ width ih => rw [hexDigits, List.length_append, ih, List.length_singleton]

/-- A digest is as wide as its four digits and the padding. -/
theorem length_digest (pad : String) (bytes : Bytes) :
    (digest pad bytes).length = 4 + pad.length := by
  rw [digest, String.length_append, String.length_ofList, length_hexDigits]

/-- **Libraries one can run.** -/
def primitives (pad : String) : Primitives where
  sha256 := digest pad
  dumps value := .ok (text value)
  loads := read
  verify key signature message := signature = encode (digest pad (key ++ message))

/-! ### A ledger after its genesis -/

section Ledger

variable (pad : String)

/-- The hash the genesis Act stands under. -/
def genesisHash : Hash := "0000" ++ pad

/-- The genesis Act, as the fixtures of the repository have it. -/
def genesis : Act where
  hash := genesisHash pad
  actType := "GenesisClosed"
  identityHash := genesisHash pad
  parents := []
  decisionCut := ∅
  commandHash := "genesis-command"
  authChain := []
  registryCut := ∅
  ruleHashes := []
  contextHash := genesisHash pad
  payloadHash := genesisHash pad
  claimedWhen := none

/-- A name registered at genesis; its definition is left out. -/
def entry (kind name : String) : RegistryEntry :=
  ⟨name, kind, name, 1, genesisHash pad, true, .null⟩

/-- A ledger that holds the genesis Act, some payloads, some identities and some
registered names. -/
def ledger (payloads : List (Hash × List (String × CanonValue))) (identities : List Identity)
    (names : List (String × String)) : MemoryLedger where
  objects := Dict.empty.merge (payloads.map fun p => (p.1, (text (.dict p.2), "payload")))
  acts := Dict.empty.set (genesisHash pad) (genesis pad)
  commandIndex := Dict.empty
  registry := []
  identities := Dict.empty.merge (identities.map fun i => (i.hash, i))
  principalBindings := Dict.empty
  registryMetadata := Dict.empty.merge
    (names.map fun e => ((e.1, e.2, genesisHash pad), entry pad e.1 e.2))

/-- The one Act of a ledger after its genesis. -/
theorem get?_ledger {pad : String} {payloads : List (Hash × List (String × CanonValue))}
    {identities : List Identity} {names : List (String × String)}
    {k : Hash} {a : Act} (h : (ledger pad payloads identities names).acts.get? k = some a) :
    k = genesisHash pad ∧ a = genesis pad := by
  have hget : (ledger pad payloads identities names).acts.get? k
      = if k = genesisHash pad then some (genesis pad) else none := Dict.get?_set
  rw [hget] at h
  split at h
  · rename_i hk
    cases h
    exact ⟨hk, rfl⟩
  · cases h

/-- Sign a Command. -/
def signed (key : Bytes) (command : Command) : Command :=
  { command with signature := encode (digest pad (key ++ text command.signingValue)) }

end Ledger

/-! ### A Command, its reviewer, and the calls they make -/

/-- Someone who signs Commands. -/
def human : Identity := ⟨"human", "human", [1, 2, 3]⟩

/-- A Context with one value. -/
def context : Context where
  values := Dict.empty.set "origin" (.str "test")
  types := Dict.empty.set "origin" "text"
  keys_eq _ := Iff.rfl

/-- A Command that asks for a change. -/
def create : Command :=
  signed "" human.publicKey ⟨"CreateThing", "human", "thing", ["0000"], "n-1", []⟩

/-- The hash of `create`. -/
def created : Hash := "485d"

/-- A Command that reviews `create`. -/
def review : Command :=
  signed "" human.publicKey ⟨"ReviewAuthorization", "human", "review", ["0000"], "r-1", []⟩

/-- A ledger both Commands can be submitted to. -/
def store : MemoryLedger :=
  ledger "" [("thing", [("name", .str "one")]),
      ("review", [("outcome", .str "allow"), ("reviewed_command_hash", .str created)])] [human]
    [("command_type", "CreateThing"), ("command_type", "ReviewAuthorization"),
      ("act_type", "ThingCreated"), ("act_type", "CommandDenied"), ("act_type", "ReviewRequested"),
      ("act_type", "AuthorizationReviewed"), ("act_type", "AuthorizationResolved"),
      ("context_type", "origin"), ("rule", "rule")]

/-- A call of the gate after the Acts of `cut`. -/
def ask (command : Command) (actType : String) (outcome : DecisionKind) (cut : Cut)
    (authChain : List Hash) : Submission where
  identity := human
  command := command
  decision := ⟨outcome, cut, ["rule"], {"0000"}, ""⟩
  context := context
  actType := actType
  authChain := authChain
  claimedWhen := none

/-- A Command goes under review. -/
def requestReview : Submission := ask create "ReviewRequested" .requireReview {"0000"} []

/-- The Command is reviewed. -/
def giveReview : Submission := ask review "AuthorizationReviewed" .allow {"0000", "ff58"} []

/-- The review is resolved, with an outcome. -/
def resolveReview (outcome : DecisionKind) : Submission :=
  ask create "AuthorizationResolved" outcome {"0000", "ff58", "8c8b"} ["ff58", "8c8b"]

/-- The change the Command asks for, its chain linking the resolution. -/
def consequence : Submission :=
  ask create "ThingCreated" .allow {"0000", "ff58", "8c8b", "998c"} ["ff58", "8c8b", "998c"]

/-- A Command goes through review. -/
def resolved (outcome : DecisionKind) : List Submission :=
  [requestReview, giveReview, resolveReview outcome]

/-- The Act `requestReview` asks for. -/
def request : Act := CommitGate.actOf requestReview "ff58" created "736b"

/-- The Act `giveReview` asks for. -/
def reviewed : Act := CommitGate.actOf giveReview "8c8b" "f107" "736b"

/-- The Act `resolveReview` asks for; the outcome is no part of it. -/
def resolution : Act := CommitGate.actOf (resolveReview .allow) "998c" created "736b"

/-- The Act `consequence` asks for. -/
def change : Act := CommitGate.actOf consequence "f1eb" created "736b"

end Sample

end PowerfarmKernel
