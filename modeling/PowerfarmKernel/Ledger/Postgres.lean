import Mathlib.Data.Finset.Card
import PowerfarmKernel.Kernel.Encoding
import PowerfarmKernel.Kernel.Store
import PowerfarmKernel.Lib.UniqueIndex

/-!
# The PostgreSQL store

`PostgresStore` of `ledger/postgres.py`, over the tables and the functions of
`supabase/migrations`. Several clients share one database, and each method is one
transaction: what it read is gone when it returns. One of them is more than a read or a
put: `powerfarm_internal.commit_act` runs under an advisory lock and checks again, in
the database, much of what the gate has checked in Python
(`PowerfarmKernel.Postgres.commitAct`).

A transaction that raises leaves nothing behind (`PowerfarmKernel.Postgres.transaction`).
What the keys and the indexes of the tables promise is
`PowerfarmKernel.Postgres.Constraints`, and every method keeps it
(`PowerfarmKernel.Postgres.Constraints.handle`).
-/

namespace PowerfarmKernel

/-- An error the database raises. -/
def databaseError (text : String) : Raised := ⟨.databaseError, text⟩

/-! ### Tables -/

/-- A row of `identity_keys`. -/
structure IdentityKey where
  identityHash : Hash
  pubkey : String
  validFromAct : Hash
  validUntilAct : Option Hash

/-- A row of `registry`. -/
structure RegistryRow where
  hash : Hash
  kind : String
  name : String
  version : ℤ
  bornAt : Hash
  constitutional : Bool

/-- A row of `principal_bindings`. A revoked binding keeps its row. -/
structure PrincipalBinding where
  issuer : String
  subject : String
  identityHash : Hash
  linkedAct : Hash
  unlinkedAct : Option Hash

namespace PrincipalBinding

/-- A binding of this principal that no revocation has ended. -/
def IsLive (issuer subject : String) (b : PrincipalBinding) : Prop :=
  b.issuer = issuer ∧ b.subject = subject ∧ b.unlinkedAct = none

instance (issuer subject : String) (b : PrincipalBinding) : Decidable (b.IsLive issuer subject) :=
  inferInstanceAs (Decidable (_ ∧ _ ∧ _))

end PrincipalBinding

/-- **The tables of the database.** -/
structure Postgres where
  objects : Dict Hash (Bytes × String)
  /-- The Acts, in the order of `seq`. -/
  acts : List Act
  registry : List RegistryRow
  /-- The identities, with their kinds. -/
  identities : Dict Hash String
  identityKeys : List IdentityKey
  principalBindings : List PrincipalBinding

namespace Postgres

variable (P : Primitives) (db : Postgres)

/-! ### Reading -/

/-- `PostgresStore.history_cut`. -/
def historyCut : Cut := (db.acts.map Act.hash).toFinset

/-- `PostgresStore.get_act`. -/
def getAct (actHash : Hash) : Option Act := db.acts.find? fun a => a.hash = actHash

/-- `PostgresStore.get_acts_for_command`. -/
def getActsForCommand (commandHash : Hash) : List Act :=
  db.acts.filter fun a => a.commandHash = commandHash

/-- `PostgresStore.registered`. -/
def registered (kind name : String) (cut : Cut) : Bool :=
  db.registry.any fun r => r.kind = kind ∧ (r.name = name ∨ r.hash = name) ∧ r.bornAt ∈ cut

/-- `PostgresStore.get_object`. -/
def getObject (objectHash : Hash) : Option ObjectRecord :=
  (db.objects.get? objectHash).map fun found => ⟨objectHash, found.1, found.2⟩

/-- `PostgresStore.is_closed_cut`: as many Acts as the cut has members, and no Act of
the cut has a parent outside it. -/
def isClosedCut (cut : Cut) : Bool :=
  (db.acts.countP fun a => a.hash ∈ cut) = cut.card ∧
    ∀ a ∈ db.acts, a.hash ∈ cut → ∀ p ∈ a.parents, p ∈ cut

/-- `_decode_public_key`. -/
def decodePublicKey (value : String) : Except Raised Bytes :=
  let chars := value.toList
  match if chars.length = 64 then fromHex chars
    else urlsafeB64decode (chars ++ List.replicate ((4 - chars.length % 4) % 4) '=') with
  | none => .error ⟨.valueError, "identity key is neither hex nor base64url"⟩
  | some decoded =>
      if decoded.length ≠ 32 then .error ⟨.valueError, "Ed25519 public key must be 32 bytes"⟩
      else .ok decoded

/-- `powerfarm_internal.identity_keys_at_cut`. -/
def identityKeysAtCut (identityHash : Hash) (cut : Cut) : List IdentityKey :=
  db.identityKeys.filter fun k => k.identityHash = identityHash ∧ k.validFromAct ∈ cut ∧
    k.validUntilAct.all fun revoked => revoked ∉ cut

/-- `PostgresStore.get_identity`. -/
def getIdentity (identityHash : Hash) (cut : Cut) : Except Raised (Option Identity) :=
  match db.identities.get? identityHash with
  | none => .ok none
  | some kind =>
      match db.identityKeysAtCut identityHash cut with
      | [key] =>
          match decodePublicKey key.pubkey with
          | .ok publicKey => .ok (some ⟨identityHash, kind, publicKey⟩)
          | .error e => .error e
      | _ => .error ⟨.valueError,
          "identity must have exactly one valid signing key at the declared cut"⟩

/-- A row of the registry joined with the object that defines it. -/
def registryEntry (row : RegistryRow) : Except Raised (Option RegistryEntry) :=
  match db.objects.get? row.hash with
  | none => .ok none
  | some (canon, _) =>
      match P.loads canon with
      | some definition => .ok (some ⟨row.hash, row.kind, row.name, row.version, row.bornAt,
          row.constitutional, definition⟩)
      | none => .error ⟨.valueError, "registry definition"⟩

/-- The order of `registry_entries`: by kind, then name, then version. -/
def rowLe (a b : RegistryRow) : Bool :=
  if a.kind ≠ b.kind then a.kind < b.kind
  else if a.name ≠ b.name then a.name < b.name
  else a.version ≤ b.version

/-- `PostgresStore.registry_entries`, on two assumptions: that the database finds a type for the
parameter of `%s is null`, which a server that binds parameters may refuse to guess, and that
`order by` follows the code points, as it does under the collation `C`. -/
def registryEntries (kind : Option String) (cut : Cut) : Except Raised (List RegistryEntry) :=
  let rows := (db.registry.filter fun r => r.bornAt ∈ cut ∧ (kind = none ∨ kind = some r.kind))
    |>.insertionSort fun a b => rowLe a b = true
  match rows.mapM (db.registryEntry P) with
  | .ok entries => .ok entries.reduceOption
  | .error e => .error e

/-- A check that raises when its condition holds. -/
def refuse (c : Prop) [Decidable c] (text : String) : Except Raised Unit :=
  if c then .error (databaseError text) else .ok ()

/-- A text the database can hold: any without the character `U+0000`. A name or a hash with it is
looked up below like any other, and found nowhere. -/
def isText (value : String) : Bool := Char.ofNat 0 ∉ value.toList

/-- The adapter passes texts to the database. -/
def passTexts (texts : List String) : Except Raised Unit :=
  refuse (texts.all isText = false) "PostgreSQL text fields cannot contain NUL (0x00) bytes"

/-- `PostgresStore.resolve_principal`. -/
def resolvePrincipal (issuer subject : String) : Except Raised (Option Hash) :=
  if issuer = "" ∨ subject = "" then .ok none
  else do
    passTexts [issuer, subject]
    return (db.principalBindings.find? fun b => b.IsLive issuer subject).map
      PrincipalBinding.identityHash

/-- **The Identity a principal resolves to**, if `PostgresStore.resolve_principal` returns one. -/
def resolved (issuer subject : String) : Option Hash :=
  (db.resolvePrincipal issuer subject).toOption.join

/-! ### Writing -/

/-- `PostgresStore.put_object`. -/
def putObject (objectHash : Hash) (canon : Bytes) (kind : String) : Except Raised Postgres :=
  match db.objects.get? objectHash with
  | some found =>
      if found ≠ (canon, kind) then .error ⟨.valueError, "CAS collision"⟩ else .ok db
  | none =>
      if isHash objectHash then .ok { db with objects := db.objects.set objectHash (canon, kind) }
      else .error (databaseError "violates check constraint objects_hash_check")

/-- `powerfarm_internal.is_hash_array`. -/
def isHashArray (hashes : List Hash) : Bool := hashes.all isHash ∧ hashes.Nodup

/-- The hash stands in `acts`. -/
def HasAct (actHash : Hash) : Prop := ∃ a ∈ db.acts, a.hash = actHash

instance (actHash : Hash) : Decidable (db.HasAct actHash) :=
  inferInstanceAs (Decidable (∃ a ∈ db.acts, a.hash = actHash))

/-- A name of the registry, born inside the cut. -/
def registeredName (kind name : String) (cut : Cut) : Bool :=
  db.registry.any fun r => r.kind = kind ∧ r.name = name ∧ r.bornAt ∈ cut

/-- The five hash arrays of an Act are well formed. -/
def arraysValid (act : Act) : Bool :=
  isHashArray act.parents ∧ isHashArray (sorted act.decisionCut) ∧ isHashArray act.authChain ∧
    isHashArray (sorted act.registryCut) ∧ isHashArray act.ruleHashes

/-- What `commit_act` asks of a new Act before it writes. -/
def checkCommit (act : Act) (canon : Bytes) (commandType : String) : Except Raised Unit := do
  refuse (¬(isHash act.hash ∧ isHash act.commandHash ∧ isHash act.identityHash ∧
      isHash act.contextHash ∧ isHash act.payloadHash))
    "commit contains a malformed content hash"
  refuse (canon = []) "canonical Act bytes are required"
  refuse (arraysValid act = false) "commit contains a malformed hash array"
  refuse (act.ruleHashes = []) "commit requires at least one Rule"
  refuse (act.hash ∈ act.parents) "Act cannot be its own parent"
  refuse (db.acts.length ≠ act.decisionCut.card ∨ ∃ a ∈ db.acts, a.hash ∉ act.decisionCut)
    "history advanced after authorization; reauthorization required"
  refuse (db.identities.get? act.identityHash = none) "unknown committing Identity"
  refuse (db.objects.get? act.contextHash = none) "Context must already exist in CAS"
  refuse (db.objects.get? act.payloadHash = none) "payload must already exist in CAS"
  refuse (∃ p ∈ act.parents, ¬db.HasAct p) "every parent must already exist"
  refuse (∃ h ∈ act.registryCut, ¬db.HasAct h) "registry cut references an unknown Act"
  refuse (∃ h ∈ act.authChain, ¬db.HasAct h) "authorization chain references an unknown Act"
  refuse (db.registeredName "command_type" commandType act.registryCut = false)
    "unregistered command type at declared Registry cut"
  refuse (db.registeredName "act_type" act.actType act.registryCut = false)
    "unregistered Act type at declared Registry cut"
  refuse (∃ h ∈ act.ruleHashes, ¬∃ r ∈ db.registry,
      r.hash = h ∧ r.kind = "rule" ∧ r.bornAt ∈ act.registryCut)
    "Rule not registered at declared Registry cut"

/-- The canonical bytes of an Act are stored, or were stored already. -/
def storeAct (act : Act) (canon : Bytes) : Except Raised Postgres :=
  match db.objects.get? act.hash with
  | some found =>
      if found ≠ (canon, "act") then .error (databaseError "CAS collision for Act hash") else .ok db
  | none => .ok { db with objects := db.objects.set act.hash (canon, "act") }

/-- `powerfarm_internal.validate_act_insert`: the trigger before a row of `acts` is
inserted. -/
def validateActInsert (act : Act) (commandType : String) : Except Raised Unit := do
  refuse (commandType = "") "Act command_type is required"
  refuse (arraysValid act = false) "Act hash arrays are malformed"
  refuse (act.hash ∈ act.parents) "Act cannot be its own parent"
  refuse (∃ p ∈ act.parents, ¬db.HasAct p) "every parent must already exist"
  refuse (∃ h ∈ act.decisionCut, ¬db.HasAct h) "decision cut references an unknown Act"
  refuse (∃ h ∈ act.registryCut, ¬db.HasAct h) "registry cut references an unknown Act"
  refuse (∃ h ∈ act.authChain, ¬db.HasAct h) "authorization chain references an unknown Act"

/-- The row of an Act is inserted, past the trigger and the partial index over the
consequential Acts. -/
def insertAct (act : Act) (commandType : String) : Except Raised Postgres := do
  db.validateActInsert act commandType
  refuse (act.IsConsequential ∧ ∃ a ∈ db.acts, a.IsConsequential ∧ a.commandHash = act.commandHash)
    "violates unique index acts_one_consequence_per_command_idx"
  return { db with acts := db.acts ++ [act] }

/-- **`powerfarm_internal.commit_act`**, with the Act it returns. Of the texts it is called
with, only the claimed time may be one the adapter cannot pass. -/
def commitAct (act : Act) (canon : Bytes) (commandType : String) : Except Raised (Act × Postgres) :=
  match db.getAct act.hash with
  | some existing => .ok (existing, db)
  | none => do
      refuse (act.claimedWhen.all isText = false)
        "PostgreSQL text fields cannot contain NUL (0x00) bytes"
      db.checkCommit act canon commandType
      let stored ← db.storeAct act canon
      let inserted ← stored.insertAct act commandType
      return (act, inserted)

/-- A row of `principal_bindings` is inserted; a second live binding of a principal is
refused by the partial index. -/
def insertBinding (issuer subject : String) (identityHash linkedAct : Hash) :
    Except Raised Postgres := do
  refuse (∃ b ∈ db.principalBindings, b.IsLive issuer subject)
    "violates unique index principal_bindings_active_idx"
  refuse (db.identities.get? identityHash = none) "violates foreign key of identity_hash"
  refuse (¬db.HasAct linkedAct) "violates foreign key of linked_act"
  return { db with
    principalBindings :=
      db.principalBindings ++ [⟨issuer, subject, identityHash, linkedAct, none⟩] }

/-- `PostgresStore.link_principal`: on conflict with a row that is there already, it does
nothing. -/
def linkPrincipal (issuer subject : String) (identityHash linkedAct : Hash) :
    Except Raised Postgres := do
  passTexts [issuer, subject, identityHash, linkedAct]
  refuse (issuer = "" ∨ subject = "") "violates check constraint of principal_bindings"
  if ∃ b ∈ db.principalBindings, b.issuer = issuer ∧ b.subject = subject ∧
      b.linkedAct = linkedAct then
    return db
  else db.insertBinding issuer subject identityHash linkedAct

/-- `PostgresStore.revoke_principal`: the live binding is ended, its row stays. -/
def revokePrincipal (issuer subject : String) (unlinkedAct : Hash) : Except Raised Postgres := do
  passTexts [unlinkedAct, issuer, subject]
  refuse ((∃ b ∈ db.principalBindings, b.IsLive issuer subject) ∧ ¬db.HasAct unlinkedAct)
    "violates foreign key of unlinked_act"
  return { db with
    principalBindings := db.principalBindings.map fun b =>
      if b.IsLive issuer subject then { b with unlinkedAct := some unlinkedAct } else b }

/-! ### The store protocol -/

/-- **A transaction**: when it raises, the database is as it was. -/
def transaction {α : Type} (r : Except Raised (α × Postgres)) : Except Raised α × Postgres :=
  match r with
  | .ok (a, t) => (.ok a, t)
  | .error e => (.error e, db)

/-- A transaction that returns nothing. -/
def execute (r : Except Raised Postgres) : Except Raised Unit × Postgres :=
  match r with
  | .ok t => (.ok (), t)
  | .error e => (.error e, db)

/-- **The database answers the store protocol.** -/
def handle : Handler LedgerOp.Ret Raised Postgres
  | .historyCut, db => (.ok db.historyCut, db)
  | .registered kind name cut, db => (.ok (db.registered kind name cut), db)
  | .hasObject h, db => (.ok (db.getObject h).isSome, db)
  | .hasAct h, db => (.ok (db.getAct h).isSome, db)
  | .putObject h canon kind, db => db.execute (db.putObject h canon kind)
  | .objectCanon h, db => (.ok ((db.getObject h).map ObjectRecord.canon), db)
  | .commitAct act canon commandType, db => db.transaction (db.commitAct act canon commandType)
  | .getAct h, db => (.ok (db.getAct h), db)
  | .getActsForCommand h, db => (.ok (db.getActsForCommand h), db)
  | .getObject h, db => (.ok (db.getObject h), db)
  | .isClosedCut cut, db => (.ok (db.isClosedCut cut), db)
  | .getIdentity h cut, db => (db.getIdentity h cut, db)
  | .registryEntries kind cut, db => (db.registryEntries P kind cut, db)
  | .resolvePrincipal issuer subject, db => (db.resolvePrincipal issuer subject, db)
  | .linkPrincipal issuer subject identityHash linkedAct, db =>
      db.execute (db.linkPrincipal issuer subject identityHash linkedAct)
  | .revokePrincipal issuer subject unlinkedAct, db =>
      db.execute (db.revokePrincipal issuer subject unlinkedAct)

variable {P} {db} {s t u : Postgres} {act r : Act} {canon : Bytes} {commandType : String}

/-- **A reading method leaves the database alone.** -/
theorem handle_isRead {o : LedgerOp} (ho : o.IsRead) (db : Postgres) : (handle P o db).2 = db := by
  cases o <;> first | rfl | exact absurd ho id

/-! ### Lookups -/

theorem mem_historyCut {h : Hash} : h ∈ db.historyCut ↔ db.HasAct h := by
  rw [historyCut, List.mem_toFinset, List.mem_map, HasAct]

theorem getAct_eq_some {h : Hash} (hget : db.getAct h = some act) :
    act ∈ db.acts ∧ act.hash = h := by
  rw [getAct] at hget
  exact ⟨List.mem_of_find?_eq_some hget, by simpa using List.find?_some hget⟩

theorem getAct_eq_none_iff {h : Hash} : db.getAct h = none ↔ ¬db.HasAct h := by
  simp [getAct, HasAct]

theorem mem_getActsForCommand {h : Hash} :
    act ∈ db.getActsForCommand h ↔ act ∈ db.acts ∧ act.commandHash = h := by
  rw [getActsForCommand, List.mem_filter, decide_eq_true_eq]

theorem resolved_eq_some_iff {issuer subject : String} {h : Hash} :
    db.resolved issuer subject = some h ↔ db.resolvePrincipal issuer subject = .ok (some h) := by
  rw [resolved]
  rcases db.resolvePrincipal issuer subject with e | found
  · exact ⟨nofun, nofun⟩
  · exact ⟨fun hfound => congrArg Except.ok hfound, fun hfound => Except.ok.inj hfound⟩

/-- No row can be of a principal with an empty part, or with `U+0000` in one. -/
def Barred (issuer subject : String) : Prop :=
  (issuer = "" ∨ subject = "") ∨ [issuer, subject].all isText = false

instance (issuer subject : String) : Decidable (Barred issuer subject) :=
  inferInstanceAs (Decidable (_ ∨ _))

/-- More texts do not make the others ones the database can hold. -/
theorem all_isText_append {texts more : List String} (h : texts.all isText = false) :
    (texts ++ more).all isText = false := by
  rw [List.all_append, h, Bool.false_and]

/-- **What a principal resolves to**: the Identity of its live row. -/
theorem resolved_eq (db : Postgres) (issuer subject : String) :
    db.resolved issuer subject =
      if Barred issuer subject then none
      else (db.principalBindings.find? fun b => b.IsLive issuer subject).map
        PrincipalBinding.identityHash := by
  rw [resolved, resolvePrincipal, passTexts, refuse]
  by_cases hempty : issuer = "" ∨ subject = ""
  · have hbar : Barred issuer subject := Or.inl hempty
    rw [if_pos hempty, if_pos hbar]
    rfl
  by_cases htext : [issuer, subject].all isText = false
  · have hbar : Barred issuer subject := Or.inr htext
    rw [if_neg hempty, if_pos htext, if_pos hbar]
    rfl
  · have hbar : ¬Barred issuer subject := not_or.mpr ⟨hempty, htext⟩
    rw [if_neg hempty, if_neg htext, if_neg hbar]
    rfl

theorem resolved_of_barred {issuer subject : String} (h : Barred issuer subject) :
    db.resolved issuer subject = none := by
  rw [resolved_eq, if_pos h]

/-! ### Commits -/

theorem refuse_ok {c : Prop} [Decidable c] {text : String} {x : Unit} :
    refuse c text = .ok x ↔ ¬c := by
  rw [refuse]
  split
  · rename_i hc
    exact ⟨fun h => (by cases h), fun h => absurd hc h⟩
  · rename_i hc
    exact ⟨fun _ => hc, fun _ => rfl⟩

theorem refuse_bind_ok {α : Type} {c : Prop} [Decidable c] {text : String}
    {f : Unit → Except Raised α} {a : α} :
    (refuse c text >>= f) = .ok a ↔ ¬c ∧ f () = .ok a := by
  rw [refuse]
  split
  · rename_i hc
    refine ⟨fun h => ?_, fun h => absurd hc h.1⟩
    cases h
  · rename_i hc
    exact ⟨fun h => ⟨hc, h⟩, fun h => h.2⟩

theorem bind_ok {α β : Type} {x : Except Raised α} {f : α → Except Raised β} {b : β} :
    (x >>= f) = .ok b ↔ ∃ a, x = .ok a ∧ f a = .ok b := by
  rcases x with e | a
  · constructor
    · intro h
      cases h
    · rintro ⟨a, h, -⟩
      cases h
  · constructor
    · exact fun h => ⟨a, rfl, h⟩
    · rintro ⟨a', h, hf⟩
      cases h
      exact hf

/-- **What holds when an Act is inserted**, and what the insertion changes. -/
structure Inserted (db t : Postgres) (act : Act) : Prop where
  fresh : ¬db.HasAct act.hash
  length : db.acts.length = act.decisionCut.card
  listed : ∀ a ∈ db.acts, a.hash ∈ act.decisionCut
  payload : ∃ found, db.objects.get? act.payloadHash = some found
  chain : ∀ h ∈ act.authChain, db.HasAct h
  unsettled : act.IsConsequential → ∀ a ∈ db.acts, a.IsConsequential →
    a.commandHash ≠ act.commandHash
  acts : t.acts = db.acts ++ [act]
  objects : db.objects ≤ t.objects
  principalBindings : t.principalBindings = db.principalBindings

theorem checkCommit_ok {x : Unit} (h : db.checkCommit act canon commandType = .ok x) :
    (db.acts.length = act.decisionCut.card ∧ ∀ a ∈ db.acts, a.hash ∈ act.decisionCut) ∧
      (∃ found, db.objects.get? act.payloadHash = some found) ∧
      ∀ h ∈ act.authChain, db.HasAct h := by
  rw [checkCommit] at h
  obtain ⟨-, h⟩ := refuse_bind_ok.mp h
  obtain ⟨-, h⟩ := refuse_bind_ok.mp h
  obtain ⟨-, h⟩ := refuse_bind_ok.mp h
  obtain ⟨-, h⟩ := refuse_bind_ok.mp h
  obtain ⟨-, h⟩ := refuse_bind_ok.mp h
  obtain ⟨hcut, h⟩ := refuse_bind_ok.mp h
  obtain ⟨-, h⟩ := refuse_bind_ok.mp h
  obtain ⟨-, h⟩ := refuse_bind_ok.mp h
  obtain ⟨hpayload, h⟩ := refuse_bind_ok.mp h
  obtain ⟨-, h⟩ := refuse_bind_ok.mp h
  obtain ⟨-, h⟩ := refuse_bind_ok.mp h
  obtain ⟨hchain, -⟩ := refuse_bind_ok.mp h
  rw [not_or, not_not] at hcut
  refine ⟨⟨hcut.1, fun a ha => ?_⟩, Option.ne_none_iff_exists'.mp hpayload, fun h hh => ?_⟩
  · by_contra hout
    exact hcut.2 ⟨a, ha, hout⟩
  · by_contra hout
    exact hchain ⟨h, hh, hout⟩

theorem storeAct_ok (h : db.storeAct act canon = .ok t) :
    t.acts = db.acts ∧ t.principalBindings = db.principalBindings ∧ db.objects ≤ t.objects := by
  rw [storeAct] at h
  rcases hfound : db.objects.get? act.hash with _ | found
  · rw [hfound] at h
    cases h
    refine ⟨rfl, rfl, Dict.le_set fun w hw => ?_⟩
    rw [hfound] at hw
    cases hw
  · rw [hfound] at h
    dsimp only at h
    split at h
    · cases h
    · cases h
      exact ⟨rfl, rfl, le_refl _⟩

theorem insertAct_ok (h : db.insertAct act commandType = .ok t) :
    (act.IsConsequential → ∀ a ∈ db.acts, a.IsConsequential → a.commandHash ≠ act.commandHash) ∧
      t = { db with acts := db.acts ++ [act] } := by
  rw [insertAct] at h
  obtain ⟨_, -, h⟩ := bind_ok.mp h
  obtain ⟨hindex, h⟩ := refuse_bind_ok.mp h
  cases h
  exact ⟨fun hcons a ha hcons' heq => hindex ⟨hcons, a, ha, hcons', heq⟩, rfl⟩

/-- **What `commit_act` does when it returns**: it has found the Act, or inserted it. -/
theorem commitAct_ok (h : db.commitAct act canon commandType = .ok (r, t)) :
    (db.getAct act.hash = some r ∧ t = db) ∨ (r = act ∧ Inserted db t act) := by
  rw [commitAct] at h
  rcases hget : db.getAct act.hash with _ | existing
  · rw [hget] at h
    obtain ⟨-, h⟩ := refuse_bind_ok.mp h
    obtain ⟨_, hcheck, h⟩ := bind_ok.mp h
    obtain ⟨stored, hstored, h⟩ := bind_ok.mp h
    obtain ⟨inserted, hinserted, h⟩ := bind_ok.mp h
    cases h
    obtain ⟨⟨hlength, hlisted⟩, hpayload, hchain⟩ := checkCommit_ok hcheck
    obtain ⟨hacts, hbindings, hobjects⟩ := storeAct_ok hstored
    obtain ⟨hindex, rfl⟩ := insertAct_ok hinserted
    rw [hacts] at hindex
    exact Or.inr ⟨rfl, getAct_eq_none_iff.mp hget, hlength, hlisted, hpayload, hchain, hindex,
      by rw [hacts], hobjects, hbindings⟩
  · rw [hget] at h
    cases h
    exact Or.inl ⟨rfl, rfl⟩

/-! ### The constraints of the tables -/

/-- The live bindings, by their principals. -/
def livePrincipals (bindings : List PrincipalBinding) : List (String × String) :=
  (bindings.filter (·.unlinkedAct = none)).map fun b => (b.issuer, b.subject)

/-- **What the keys and the indexes of the tables promise.** -/
structure Constraints (db : Postgres) : Prop where
  /-- `acts_hash_key`. -/
  actsHash : (db.acts.map Act.hash).Nodup
  /-- `acts_one_consequence_per_command_idx`. -/
  oneConsequence : ((db.acts.filter (·.IsConsequential)).map Act.commandHash).Nodup
  /-- The payload of an Act references an object. -/
  actsPayload : ∀ a ∈ db.acts, ∃ found, db.objects.get? a.payloadHash = some found
  /-- `principal_bindings_active_idx`. -/
  activeBinding : (livePrincipals db.principalBindings).Nodup

/-- **The cut of an inserted Act is the history before it.** -/
theorem Inserted.decisionCut (h : Inserted db t act) (hc : Constraints db) :
    act.decisionCut = db.historyCut := by
  have hsub : db.historyCut ⊆ act.decisionCut := by
    intro x hx
    obtain ⟨a, ha, rfl⟩ := mem_historyCut.mp hx
    exact h.listed a ha
  have hcard : db.historyCut.card = act.decisionCut.card := by
    rw [historyCut, List.toFinset_card_of_nodup hc.actsHash, List.length_map, h.length]
  exact (Finset.eq_of_subset_of_card_le hsub hcard.ge).symm

/-- **An inserted Act has its hash to itself**, as the others have theirs. -/
theorem Inserted.actsHash (h : Inserted db t act) (hunique : (db.acts.map Act.hash).Nodup) :
    (t.acts.map Act.hash).Nodup := by
  rw [h.acts]
  exact List.nodup_map_concat hunique fun a ha heq => h.fresh ⟨a, ha, heq⟩

theorem Constraints.inserted (hc : Constraints db) (h : Inserted db t act) : Constraints t := by
  constructor
  · exact h.actsHash hc.actsHash
  · -- The partial unique index: the Act may itself be a stage.
    rw [h.acts]
    refine List.nodup_map_filter_concat hc.oneConsequence fun hcons a ha hcons' => ?_
    exact h.unsettled (of_decide_eq_true hcons) a ha (of_decide_eq_true hcons')
  · intro a ha
    rw [h.acts, List.mem_append, List.mem_singleton] at ha
    have hold : ∃ found, db.objects.get? a.payloadHash = some found := by
      rcases ha with ha | rfl
      · exact hc.actsPayload a ha
      · exact h.payload
    obtain ⟨found, hfound⟩ := hold
    exact ⟨found, Dict.get?_of_le h.objects hfound⟩
  · rw [h.principalBindings]
    exact hc.activeBinding

/-- **No Act was inserted**: objects were added at most, and no principal was given a
second live binding. -/
structure Kept (s t : Postgres) : Prop where
  acts : t.acts = s.acts
  objects : s.objects ≤ t.objects
  activeBinding : (livePrincipals s.principalBindings).Nodup →
    (livePrincipals t.principalBindings).Nodup

theorem Kept.refl (s : Postgres) : Kept s s := ⟨rfl, le_refl _, id⟩

theorem Constraints.kept (hc : Constraints db) (h : Kept db t) : Constraints t := by
  constructor
  · rw [h.acts]
    exact hc.actsHash
  · rw [h.acts]
    exact hc.oneConsequence
  · intro a ha
    rw [h.acts] at ha
    obtain ⟨found, hfound⟩ := hc.actsPayload a ha
    exact ⟨found, Dict.get?_of_le h.objects hfound⟩
  · exact h.activeBinding hc.activeBinding

theorem putObject_ok {h : Hash} {kind : String} (hput : db.putObject h canon kind = .ok t) :
    Kept db t := by
  rw [putObject] at hput
  rcases hfound : db.objects.get? h with _ | found
  · rw [hfound] at hput
    dsimp only at hput
    split at hput
    · cases hput
      refine ⟨rfl, Dict.le_set fun w hw => ?_, id⟩
      rw [hfound] at hw
      cases hw
    · cases hput
  · rw [hfound] at hput
    dsimp only at hput
    split at hput
    · cases hput
    · cases hput
      exact Kept.refl _

theorem linkPrincipal_ok {issuer subject : String} {identityHash linkedAct : Hash}
    (h : db.linkPrincipal issuer subject identityHash linkedAct = .ok t) : Kept db t := by
  rw [linkPrincipal, passTexts] at h
  obtain ⟨-, h⟩ := refuse_bind_ok.mp h
  obtain ⟨-, h⟩ := refuse_bind_ok.mp h
  split at h
  · cases h
    exact Kept.refl _
  · rw [insertBinding] at h
    obtain ⟨hlive, h⟩ := refuse_bind_ok.mp h
    obtain ⟨-, h⟩ := refuse_bind_ok.mp h
    obtain ⟨-, h⟩ := refuse_bind_ok.mp h
    cases h
    refine ⟨rfl, le_refl _, fun hnodup => ?_⟩
    refine List.nodup_map_filter_concat hnodup fun _ b hb hopen heq => ?_
    obtain ⟨hissuer, hsubject⟩ := Prod.mk.inj heq
    exact hlive ⟨b, hb, hissuer, hsubject, of_decide_eq_true hopen⟩

/-- A revocation makes no binding live. -/
theorem livePrincipals_revoked (issuer subject : String) (unlinkedAct : Hash)
    (bindings : List PrincipalBinding) :
    (livePrincipals (bindings.map fun b =>
      if b.IsLive issuer subject then { b with unlinkedAct := some unlinkedAct } else b)).Sublist
        (livePrincipals bindings) := by
  induction bindings with
  | nil => exact List.Sublist.refl _
  | cons b bindings ih =>
    simp only [livePrincipals, List.map_cons, List.filter_cons] at ih ⊢
    by_cases hlive : b.IsLive issuer subject
    · simp only [hlive, if_true, hlive.2.2, decide_true, reduceCtorEq, decide_false, if_false,
        List.map_cons, Bool.false_eq_true]
      exact List.Sublist.cons _ ih
    · simp only [hlive, if_false]
      by_cases hnone : b.unlinkedAct = none
      · simp only [hnone, decide_true, if_true, List.map_cons]
        exact List.Sublist.cons_cons _ ih
      · simp only [hnone, decide_false, Bool.false_eq_true, if_false]
        exact ih

theorem revokePrincipal_ok {issuer subject : String} {unlinkedAct : Hash}
    (h : db.revokePrincipal issuer subject unlinkedAct = .ok t) : Kept db t := by
  rw [revokePrincipal, passTexts] at h
  obtain ⟨-, h⟩ := refuse_bind_ok.mp h
  obtain ⟨-, h⟩ := refuse_bind_ok.mp h
  cases h
  exact ⟨rfl, le_refl _, fun hnodup => hnodup.sublist (livePrincipals_revoked ..)⟩

theorem kept_execute {r : Except Raised Postgres} (h : ∀ t, r = .ok t → Kept db t) :
    Kept db (db.execute r).2 := by
  rcases r with e | t
  · exact Kept.refl _
  · exact h t rfl

/-- **What one method does to the database**: it inserts one Act, or none. -/
theorem handle_cases (P : Primitives) (o : LedgerOp) (db : Postgres) :
    (∃ act canon commandType, o = .commitAct act canon commandType ∧
        Inserted db (handle P o db).2 act) ∨ Kept db (handle P o db).2 := by
  cases o with
  | putObject h canon kind => exact Or.inr (kept_execute fun _ => putObject_ok)
  | linkPrincipal issuer subject identityHash linkedAct =>
    exact Or.inr (kept_execute fun _ => linkPrincipal_ok)
  | revokePrincipal issuer subject unlinkedAct =>
    exact Or.inr (kept_execute fun _ => revokePrincipal_ok)
  | commitAct act canon commandType =>
    rcases hcommit : db.commitAct act canon commandType with e | ⟨r, t⟩
    · refine Or.inr ?_
      rw [handle, hcommit]
      exact Kept.refl _
    · rw [handle, hcommit]
      rcases commitAct_ok hcommit with ⟨-, rfl⟩ | ⟨-, hinserted⟩
      · exact Or.inr (Kept.refl _)
      · exact Or.inl ⟨act, canon, commandType, rfl, hinserted⟩
  | _ => exact Or.inr (Kept.refl _)

/-- **Every method keeps the constraints.** -/
theorem Constraints.handle (hc : Constraints db) (o : LedgerOp) :
    Constraints (Postgres.handle P o db).2 := by
  rcases handle_cases P o db with ⟨act, canon, commandType, -, hinserted⟩ | hkept
  · exact hc.inserted hinserted
  · exact hc.kept hkept

/-- **The database only grows.** -/
structure Grown (s t : Postgres) : Prop where
  acts : s.acts <+: t.acts
  objects : s.objects ≤ t.objects

theorem Grown.refl (s : Postgres) : Grown s s := ⟨List.prefix_rfl, le_refl _⟩

theorem Grown.trans (h : Grown s t) (h' : Grown t u) : Grown s u :=
  ⟨h.acts.trans h'.acts, h.objects.trans h'.objects⟩

theorem grown_handle (P : Primitives) (o : LedgerOp) (db : Postgres) :
    Grown db (Postgres.handle P o db).2 := by
  rcases handle_cases P o db with ⟨act, canon, commandType, -, hinserted⟩ | hkept
  · refine ⟨?_, hinserted.objects⟩
    rw [hinserted.acts]
    exact List.prefix_append _ _
  · refine ⟨?_, hkept.objects⟩
    rw [hkept.acts]

theorem Grown.hasAct (h : Grown s t) {x : Hash} (hx : s.HasAct x) : t.HasAct x := by
  obtain ⟨a, ha, rfl⟩ := hx
  exact ⟨a, h.acts.subset ha, rfl⟩

/-- **Counting the Acts of a cut**: there are as many as it has members exactly when each
member is the hash of an Act. -/
theorem countP_eq_card_iff (hunique : (db.acts.map Act.hash).Nodup) {cut : Cut} :
    (db.acts.countP fun a => a.hash ∈ cut) = cut.card ↔ ∀ x ∈ cut, db.HasAct x := by
  have hnodup : ((db.acts.filter fun a => a.hash ∈ cut).map Act.hash).Nodup :=
    hunique.sublist (List.filter_sublist.map _)
  have hmem : ∀ x, x ∈ ((db.acts.filter fun a => a.hash ∈ cut).map Act.hash).toFinset ↔
      x ∈ cut ∧ db.HasAct x := by
    intro x
    rw [List.mem_toFinset, List.mem_map]
    constructor
    · rintro ⟨a, ha, rfl⟩
      exact ⟨of_decide_eq_true (List.mem_filter.mp ha).2, a, List.mem_of_mem_filter ha, rfl⟩
    · rintro ⟨hx, a, ha, rfl⟩
      exact ⟨a, List.mem_filter.mpr ⟨ha, decide_eq_true hx⟩, rfl⟩
  have hsub : ((db.acts.filter fun a => a.hash ∈ cut).map Act.hash).toFinset ⊆ cut :=
    fun x hx => ((hmem x).mp hx).1
  have hcard : (db.acts.countP fun a => a.hash ∈ cut)
      = ((db.acts.filter fun a => a.hash ∈ cut).map Act.hash).toFinset.card := by
    rw [List.toFinset_card_of_nodup hnodup, List.length_map, List.countP_eq_length_filter]
  rw [hcard]
  constructor
  · intro heq x hx
    rw [← Finset.eq_of_subset_of_card_le hsub heq.ge] at hx
    exact ((hmem x).mp hx).2
  · intro hall
    exact congrArg Finset.card (hsub.antisymm fun x hx => (hmem x).mpr ⟨hx, hall x hx⟩)

/-- **A cut is closed** when its members are the hashes of Acts whose parents are members. -/
theorem isClosedCut_iff (hunique : (db.acts.map Act.hash).Nodup) {cut : Cut} :
    db.isClosedCut cut = true ↔ (∀ x ∈ cut, db.HasAct x) ∧
      ∀ a ∈ db.acts, a.hash ∈ cut → ∀ p ∈ a.parents, p ∈ cut := by
  rw [isClosedCut, decide_eq_true_eq, countP_eq_card_iff hunique]

/-- **A closed cut is in history.** -/
theorem hasAct_of_isClosedCut (hc : Constraints db) {cut : Cut} (h : db.isClosedCut cut = true)
    {x : Hash} (hx : x ∈ cut) : db.HasAct x :=
  ((isClosedCut_iff hc.actsHash).mp h).1 x hx

/-- **A closed cut stays closed** when Acts are added. -/
theorem isClosedCut_of_prefix {cut : Cut} (hacts : db.acts <+: t.acts)
    (ht : (t.acts.map Act.hash).Nodup) (h : db.isClosedCut cut = true) :
    t.isClosedCut cut = true := by
  have hunique : (db.acts.map Act.hash).Nodup := ht.sublist (hacts.sublist.map _)
  rw [isClosedCut_iff hunique] at h
  rw [isClosedCut_iff ht]
  refine ⟨fun x hx => ?_, fun a ha hin => ?_⟩
  · obtain ⟨b, hb, hhash⟩ := h.1 x hx
    exact ⟨b, hacts.subset hb, hhash⟩
  · -- The Act of a member is the one that was there, for hashes are unique.
    obtain ⟨b, hb, hhash⟩ := h.1 a.hash hin
    have hsame : b = a := List.inj_on_of_nodup_map ht (hacts.subset hb) ha hhash
    rw [← hsame]
    exact h.2 b hb (hsame ▸ hin)

/-- **A history that still has no more than a cut has not moved** since that cut was all
there. -/
theorem Grown.acts_eq_of_cut (h : Grown s t) (ht : Constraints t) {cut : Cut}
    (hcut : ∀ x ∈ cut, s.HasAct x) (heq : t.historyCut = cut) : t.acts = s.acts := by
  obtain ⟨post, hpost⟩ := h.acts
  rcases post with _ | ⟨a, post⟩
  · rw [← hpost, List.append_nil]
  -- An Act further on would be in the cut, so it would have been there before.
  · exfalso
    have hmem : a ∈ t.acts := by
      rw [← hpost]
      exact List.mem_append_right _ List.mem_cons_self
    have hin : a.hash ∈ cut := by
      rw [← heq]
      exact mem_historyCut.mpr ⟨a, hmem, rfl⟩
    obtain ⟨b, hb, hhash⟩ := hcut _ hin
    have hnodup := ht.actsHash
    rw [← hpost, List.map_append, List.nodup_append] at hnodup
    exact hnodup.2.2 _ (List.mem_map_of_mem hb) _ (List.mem_map_of_mem List.mem_cons_self) hhash

end Postgres

end PowerfarmKernel
