import PowerfarmKernel.Kernel.Texts
import PowerfarmKernel.Protocol.Server

/-!
# Identities and Commands in exchange

An Identity leaves one estate as the document of a resource, with its key as a text, and
enters another as rows of its tables. A signed Command comes in as the input of a tool, with
its signature as a text. The two readers of these texts are not the same: a key may also be
written in hexadecimal, and which of the two it is the reader tells by its length.

Nothing is lost on either way (`PowerfarmKernel.Protocol.signed_command_travels`).
-/

namespace PowerfarmKernel

open Prog LedgerM

/-! ### The readers -/

/-- A key in base64url is read. -/
theorem Postgres.decodePublicKey_unpadded {key : Bytes} (hkey : key.length = 32) :
    decodePublicKey (String.ofList (unpadded key)) = .ok key := by
  -- 43 characters are not taken for hexadecimal digits.
  have hlength : (unpadded key).length ≠ 64 := by
    rw [length_unpadded, hkey]
    decide
  rw [decodePublicKey, String.toList_ofList, if_neg hlength, urlsafeB64decode_unpadded]
  dsimp only
  rw [if_neg (not_not.mpr hkey)]

/-- A key in hexadecimal is read. -/
theorem Postgres.decodePublicKey_toHex {key : Bytes} (hkey : key.length = 32) :
    decodePublicKey (String.ofList (toHex key)) = .ok key := by
  have hlength : (toHex key).length = 64 := by rw [length_toHex, hkey]
  rw [decodePublicKey, String.toList_ofList, if_pos hlength, fromHex_toHex]
  dsimp only
  rw [if_neg (not_not.mpr hkey)]

/-- A signature is read. -/
theorem decodeSignature_unpadded {signature : Bytes} (hsignature : signature.length = 64) :
    decodeSignature (String.ofList (unpadded signature)) = .ok signature := by
  rw [decodeSignature, String.toList_ofList, urlsafeB64decode_unpadded]
  dsimp only
  rw [if_neg (not_not.mpr hsignature)]

/-- The key of an Identity that was found has the length of a key. -/
theorem Postgres.length_of_getIdentity {db : Postgres} {x : Hash} {cut : Cut}
    {identity : Identity} (h : db.getIdentity x cut = .ok (some identity)) :
    identity.hash = x ∧ db.identities.get? x = some identity.kind ∧
      identity.publicKey.length = 32 := by
  rw [getIdentity] at h
  rcases hkind : db.identities.get? x with _ | kind
  · rw [hkind] at h
    cases h
  · rw [hkind] at h
    dsimp only at h
    split at h
    · rename_i key _
      split at h
      · rename_i publicKey hdecode
        cases h
        refine ⟨rfl, rfl, ?_⟩
        rw [decodePublicKey] at hdecode
        split at hdecode
        · cases hdecode
        · split at hdecode
          · cases hdecode
          · rename_i hlength
            cases hdecode
            exact not_not.mp hlength
      · cases h
    · cases h

/-- An Identity that was entered under a text of its key is found. -/
theorem Postgres.getIdentity_of_decode {db : Postgres} {x : Hash} {cut : Cut} {key : IdentityKey}
    {identity : Identity} (hhash : identity.hash = x)
    (hkind : db.identities.get? x = some identity.kind)
    (hkeys : db.identityKeysAtCut x cut = [key])
    (hdecode : decodePublicKey key.pubkey = .ok identity.publicKey) :
    db.getIdentity x cut = .ok (some identity) := by
  subst hhash
  rw [getIdentity, hkind, hkeys]
  dsimp only
  rw [hdecode]

theorem ActionRequest.requireParents_ok {parents : List Hash} (h : ∀ p ∈ parents, isHash p = true)
    (index : ℕ) : requireParents index parents = .ok () := by
  induction parents generalizing index with
  | nil => rfl
  | cons p parents ih =>
    rw [requireParents, requireHash, if_pos (h p List.mem_cons_self)]
    exact ih (fun q hq => h q (List.mem_cons_of_mem _ hq)) _

namespace Protocol

/-- **An input spells out a Command**: it has its fields, and its signature in base64url. -/
structure Spells (input : CommandInput) (command : Command) : Prop where
  commandType : input.commandType = command.commandType
  identityHash : input.identityHash = command.identityHash
  payloadHash : input.payloadHash = command.payloadHash
  parents : input.parents = command.parents
  nonce : input.nonce = command.nonce
  signature : input.signature = String.ofList (unpadded command.signature)

/-- **A Command that was spelled out is read back.** -/
theorem Spells.command_eq {action : ActionInput} {command : Command}
    (h : Spells action.command command) (hsignature : command.signature.length = 64)
    (hparents : ∀ p ∈ command.parents, isHash p = true) :
    (ActionInput.toService action).command = .ok command := by
  have hdecode : decodeSignature action.command.signature = .ok command.signature := by
    rw [h.signature, decodeSignature_unpadded hsignature]
  rw [ActionRequest.command]
  change (requireHash action.command.identityHash "identity_hash" >>= fun identityHash =>
    requireHash action.command.payloadHash "payload_hash" >>= fun payloadHash =>
      ActionRequest.requireParents 0 action.command.parents >>= fun _ =>
        decodeSignature action.command.signature >>= fun signature => _) = _
  rw [hdecode, h.parents, ActionRequest.requireParents_ok hparents, requireHash, requireHash,
    if_pos action.command.identityHash_isHash, if_pos action.command.payloadHash_isHash]
  change Except.ok (Command.mk action.command.commandType action.command.identityHash
    action.command.payloadHash action.command.parents action.command.nonce command.signature) = _
  rw [h.commandType, h.identityHash, h.payloadHash, h.parents, h.nonce]

/-- What reading the resource of an Identity answers. -/
theorem run_identity (P : Primitives) (db : Postgres) (x : Hash) :
    ((Resource.identity x).respond.run (Postgres.handle P) db).1 =
      .ok (match db.getIdentity x db.historyCut with
        | .error e => .error (.escaped e)
        | .ok none => .error (.resourceNotFound ("Identity " ++ x ++ " not found"))
        | .ok (some identity) =>
            .ok (.document (Resource.identityDocument identity db.historyCut))) := by
  have hcut : historyCut.run (Postgres.handle P) db = (.ok db.historyCut, db) := rfl
  have hget : (getIdentity x db.historyCut).run (Postgres.handle P) db =
      (db.getIdentity x db.historyCut, db) := run_call.trans rfl
  rw [Resource.respond, run_bind_of_eq (run_attempt _), Resource.content, run_bind_of_eq hcut,
    run_bind, hget]
  rcases db.getIdentity x db.historyCut with e | _ | identity
  · rfl
  · rfl
  · rfl

/-- **Nothing is lost on the way.** One estate publishes an Identity. In another one, the
Identity is entered with this kind, and at some cut its one key is the published text, or the
hexadecimal digits of the same key. A Command with a signature of its length is spelled out
in the input of a tool there. Then the service there reads this very Command, and checks its
signature with the key that the Identity has in the first estate. -/
theorem signed_command_travels (P : Primitives) (db db' : Postgres) (x : Hash)
    (items : List (String × CanonValue))
    (hpublished : ((Resource.identity x).respond.run (Postgres.handle P) db).1 =
      .ok (.ok (.document (.dict items)))) (key : IdentityKey) (cut : Cut)
    (hkind : stringField items "kind" = db'.identities.get? x)
    (hkeys : db'.identityKeysAtCut x cut = [key])
    (hkey : stringField items "public_key" = some key.pubkey ∨
      ∃ published, db.getIdentity x db.historyCut = .ok (some published) ∧
        key.pubkey = String.ofList (toHex published.publicKey))
    (command : Command) (action : ActionInput) (hspells : Spells action.command command)
    (hsignature : command.signature.length = 64)
    (hparents : ∀ p ∈ command.parents, isHash p = true) (hx : command.identityHash = x) :
    ∃ identity, db.getIdentity x db.historyCut = .ok (some identity) ∧
      (ActionInput.toService action).command = .ok command ∧
      (AuthorityService.performer command cut).run (Postgres.handle P) db' =
        (.ok identity, db') := by
  rw [run_identity] at hpublished
  rcases hfound : db.getIdentity x db.historyCut with e | _ | identity
  · rw [hfound] at hpublished
    cases hpublished
  · rw [hfound] at hpublished
    cases hpublished
  rw [hfound] at hpublished
  cases hpublished
  obtain ⟨hhash, -, hlength⟩ := Postgres.length_of_getIdentity hfound
  refine ⟨identity, rfl, hspells.command_eq hsignature hparents, ?_⟩
  -- Either text is read as the key it was written for.
  have hdecode : Postgres.decodePublicKey key.pubkey = .ok identity.publicKey := by
    rcases hkey with htext | ⟨published, hsame, htext⟩
    · rw [← Option.some.inj htext]
      exact Postgres.decodePublicKey_unpadded hlength
    · rw [hfound] at hsame
      cases hsame
      rw [htext, Postgres.decodePublicKey_toHex hlength]
  have hentered := Postgres.getIdentity_of_decode hhash hkind.symm hkeys hdecode
  have hget : (getIdentity command.identityHash cut).run (Postgres.handle P) db' =
      (.ok (some identity), db') := by
    rw [hx, ← hentered]
    exact run_call.trans rfl
  rw [AuthorityService.performer, run_bind_of_eq hget]
  rfl

/-- Another database, in which the root Identity is entered with the published text. -/
def received : Postgres :=
  { Sample.database with identityKeys :=
      [⟨Sample.root.hash, String.ofList (unpadded Sample.root.publicKey),
        Sample.genesisHash Sample.pad, none⟩] }

/-- The Command for a thing, as the root Identity signs it. -/
def thingCommand : Command :=
  Sample.signed Sample.pad Sample.root.publicKey ⟨"CreateThing", Sample.root.hash,
    Sample.createThing.payloadHash, [Sample.genesisHash Sample.pad], "n-1", []⟩

/-- The Command for a thing travels. -/
theorem signed_command_travels_thing : ∃ identity,
    Sample.database.getIdentity Sample.root.hash Sample.database.historyCut =
      .ok (some identity) ∧
    (ActionInput.toService thingInput).command = .ok thingCommand ∧
    (AuthorityService.performer thingCommand {Sample.genesisHash Sample.pad}).run
      (Postgres.handle Sample.libraries) received = (.ok identity, received) := by
  have hfound : Sample.database.getIdentity Sample.root.hash Sample.database.historyCut =
      .ok (some Sample.root) :=
    Sample.ok_of_toOption (by decide +kernel)
  have hpublished : ((Resource.identity Sample.root.hash).respond.run
      (Postgres.handle Sample.libraries) Sample.database).1 = .ok (.ok (.document
        (Resource.identityDocument Sample.root Sample.database.historyCut))) := by
    rw [run_identity, hfound]
  have hkeys : received.identityKeysAtCut Sample.root.hash {Sample.genesisHash Sample.pad} =
      [⟨Sample.root.hash, String.ofList (unpadded Sample.root.publicKey),
        Sample.genesisHash Sample.pad, none⟩] := by
    rfl
  refine signed_command_travels Sample.libraries Sample.database received Sample.root.hash _
    hpublished _ _ rfl hkeys (Or.inl rfl) thingCommand thingInput ⟨rfl, rfl, rfl, rfl, rfl, ?_⟩
    (by decide +kernel) (by decide +kernel) rfl
  decide +kernel

end Protocol

end PowerfarmKernel
