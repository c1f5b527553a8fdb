import PowerfarmKernel.Ledger.Certified
import PowerfarmKernel.Service.Grounds
import PowerfarmKernel.Service.Snapshots

/-!
# Histories that can be compared

The service never stores but under an address it has just computed, and never places an Act
but after its Command and its Context. So whatever passes through its doors, and whoever
else is at work, the database keeps certifying itself
(`PowerfarmKernel.Clients.certified_exec`).

Two deployments that were started with the same Acts can then be told apart, or found the
same, by one hash: `PowerfarmKernel.Clients.histories_attested`.
-/

namespace PowerfarmKernel

open Prog LedgerM Interleaving

namespace Clients

variable {ι : Type} {P : Primitives} {base : List Act} {s t : Postgres} {i : ι} {α : Type}
  {c : Submission} {service : AuthorityService} {request : ActionRequest}
  {principal : Option RequestPrincipal} {E : EvaluatedAction}

/-! ### Clients that certify what they write -/

/-- **What keeps a database certified**: everybody writes with that in mind. -/
def certifying (P : Primitives) (base : List Act) : Discipline (Postgres.handle P) ι where
  inv db := db.Constraints ∧ Postgres.Certified P base db
  rely := Postgres.Grown
  allowed _ _ _ := True
  good _ db o := Postgres.Certifies P db o
  refl := Postgres.Grown.refl
  trans := Postgres.Grown.trans
  keeps _ s o hinv _ hgood :=
    ⟨⟨hinv.1.handle o, hinv.2.handle hinv.1 hgood⟩, Postgres.grown_handle P o s⟩

theorem certifies_of_isRead (o : LedgerOp) (ho : o.IsRead) (t : Postgres)
    (_ : (certifying (ι := ι) P base).inv t) (_ : (certifying P base).allowed i t o) :
    (certifying P base).good i t o :=
  Postgres.certifies_of_isRead ho t

/-- A part that reads. -/
theorem certifies_read {p : LedgerM α} (hp : p.Only LedgerOp.IsRead) :
    Safe (certifying P base) i (fun _ _ => True) p s :=
  Safe.of_only hp certifies_of_isRead fun _ _ _ _ => trivial

/-- An object that is stored under its address stays there. -/
theorem certifies_putObject {h : Hash} {canon : Bytes} {kind : String}
    (haddress : IsAddress P kind canon h) :
    Safe (certifying P base) i (fun _ t => t.objects.get? h = some (canon, kind))
      (LedgerM.putObject h canon kind) s := by
  refine Safe.call fun t _ _ _ => ⟨haddress, fun _ hok u _ hu => ?_⟩
  rcases hput : t.putObject h canon kind with e | t'
  · rw [Postgres.handle, hput] at hok
    cases hok
  · rw [Postgres.handle, hput] at hu
    change Postgres.Grown t' u at hu
    exact Dict.get?_of_le hu.objects (Postgres.Steady.get?_of_putObject hput)

/-- The hashes that the checks hand over are those of the Command and the Context. -/
theorem yields_checks : (CommitGate.checks P c).Yields fun hashes =>
    c.command.hash P = .ok hashes.1 ∧ c.context.hash P = .ok hashes.2 := by
  rw [CommitGate.checks]
  refine .bind_always fun _ => Yields.bind (.ofExcept fun _ => id) fun commandHash hcommand => ?_
  refine Yields.bind (.ofExcept fun _ => id) fun contextHash hcontext => ?_
  iterate 18 refine .bind_always fun _ => ?_
  exact ⟨hcommand, hcontext⟩

/-- **What the head of the gate finds** is an Act under the hash of its own fields. -/
theorem yields_head : (CommitGate.head P c).Yields fun found =>
    ∀ value actHash commandHash contextHash, found = .inr (value, actHash, commandHash,
      contextHash) → value = (CommitGate.actOf c actHash commandHash contextHash).value ∧
        objectHash P "act" value = .ok actHash ∧ c.command.hash P = .ok commandHash ∧
        c.context.hash P = .ok contextHash := by
  rw [CommitGate.head]
  refine .bind_always fun _ => .bind_always fun _ => ?_
  refine Yields.bind (.ofExcept fun _ => id) fun value hvalue => ?_
  refine Yields.bind (.ofExcept fun _ => id) fun actHash hact => .bind_always fun existing => ?_
  rcases existing with _ | act
  · refine yields_checks.bind fun hashes hhashes => ?_
    rintro value' actHash' commandHash contextHash heq
    cases heq
    obtain ⟨hcommand, hcontext⟩ := hhashes
    rw [CommitGate.canonicalValue, hcommand, hcontext] at hvalue
    exact ⟨(Except.ok.inj hvalue).symm, hact, hcommand, hcontext⟩
  · rintro value' actHash' commandHash contextHash heq
    cases heq

/-- **The gate certifies what it writes.** -/
theorem certifies_gate :
    Safe (certifying P base) i (fun _ _ => True) (CommitGate.commit P c) s := by
  rw [CommitGate.commit_eq]
  refine Safe.bind ((Safe.of_yields (CommitGate.only_head.mono fun _ => LedgerOp.IsGateRead.isRead)
    yields_head certifies_of_isRead).imp fun found t _ _ hfound => ?_)
  rcases found with act | ⟨value, actHash, commandHash, contextHash⟩
  · exact Safe.pure fun _ _ _ => trivial
  obtain ⟨hvalue, hact, hcommand, hcontext⟩ := hfound _ _ _ _ rfl
  rw [CommitGate.tail, CommitGate.write]
  refine Safe.bind_ofExcept fun commandCanon hcommandCanon => Safe.bind ?_
  refine (certifies_putObject ⟨_, hcommandCanon, hcommand⟩).imp fun _ u _ _ hstored => ?_
  refine Safe.bind_ofExcept fun contextCanon hcontextCanon => Safe.bind ?_
  refine (certifies_putObject ⟨_, hcontextCanon, hcontext⟩).imp fun _ v _ huv hstored' => ?_
  refine Safe.mapError (Safe.bind_ofExcept fun canon hcanon => ?_) _
  refine Safe.call fun w _ hvw _ => ⟨⟨?_, ?_, ?_, ?_⟩, fun _ _ _ _ _ => trivial⟩
  · rw [← hvalue]
    exact hact
  · rw [← hvalue]
    exact hcanon
  · exact ⟨_, Dict.get?_of_le (huv.trans hvw).objects hstored⟩
  · exact ⟨_, Dict.get?_of_le hvw.objects hstored'⟩

/-! ### The service -/

/-- In every evaluation, a payload that came with the request is the one it names. -/
theorem yields_evaluate : (AuthorityService.evaluate P service request principal).Yields fun _ =>
    ∀ payload, request.payload = some payload →
      objectHash P "payload" payload = .ok request.payloadHash := by
  rw [AuthorityService.evaluate]
  refine .bind_always fun command => .bind_always fun currentCut => ?_
  dsimp only
  rw [AuthorityService.evaluateAt]
  iterate 8 refine .bind_always fun _ => ?_
  refine yields_validatePayload.bind fun _ hpayload => ?_
  iterate 6 refine .bind_always fun _ => ?_
  exact hpayload

/-- The payload of a request goes under its address. -/
theorem certifies_storePayload (hpayload : ∀ payload, request.payload = some payload →
    objectHash P "payload" payload = .ok request.payloadHash) :
    Safe (certifying P base) i (fun _ _ => True) (AuthorityService.storePayload P request) s := by
  rw [AuthorityService.storePayload]
  rcases hgiven : request.payload with _ | payload
  · exact Safe.pure fun _ _ _ => trivial
  · exact Safe.bind_ofExcept fun canon hcanon =>
      (certifies_putObject ⟨payload, hcanon, hpayload payload hgiven⟩).imp fun _ _ _ _ _ => trivial

theorem certifies_commit : Safe (certifying P base) i (fun _ _ => True)
    (AuthorityService.commit P service request principal) s := by
  refine Safe.bind ((Safe.of_yields (AuthorityService.only_evaluate _ _) yields_evaluate
    certifies_of_isRead).imp fun E t _ _ hpayload => ?_)
  have hend : ∀ s, Safe (certifying P base) i (fun _ _ => True)
      (AuthorityService.commitEvaluated P request E) s := by
    intro s
    refine Safe.bind_only (φ := LedgerOp.IsRead) (.call trivial) certifies_of_isRead
      fun _ s _ _ => Safe.bind_raiseWhen fun _ => ?_
    refine Safe.bind ((certifies_storePayload hpayload).imp fun _ s _ _ _ => ?_)
    refine Safe.bind (certifies_gate.imp fun act t _ _ _ => ?_)
    split
    · exact Safe.pure fun _ _ _ => trivial
    · exact Safe.pure fun _ _ _ => trivial
  refine Safe.bind_raiseWhen fun _ => ?_
  split
  · refine Safe.bind_only (AuthorityService.only_settledConsequence E) certifies_of_isRead
      fun settled s _ _ => ?_
    rcases settled with _ | result
    · exact hend s
    · exact Safe.pure fun _ _ _ => trivial
  · exact hend t

/-- **Every errand** is run with certified writes. -/
theorem certifies_run (errand : Errand) : Safe (certifying P base) i (fun _ _ => True)
    (errand.run P service) s := by
  have hserve : ∀ (v : Doors.Visit) (s : Postgres), Safe (certifying P base) i (fun _ _ => True)
      (v.door.serve P service v.call.request v.call.principal) s := by
    intro v s
    rcases v.door with _ | _ | _ | op
    · exact certifies_commit
    · exact Safe.bind_ofExcept fun _ _ => certifies_commit
    · exact Safe.bind_ofExcept fun _ _ => certifies_commit
    · refine Safe.bind_ofExcept fun payload _ => Safe.bind (certifies_commit.imp
        fun result t _ _ _ => Safe.bind (Safe.imp (Q := fun _ _ => True) ?_
          fun _ _ _ _ _ => Safe.pure fun _ _ _ => trivial))
      cases op with
      | link => exact Safe.call fun _ _ _ _ => ⟨trivial, fun _ _ _ _ _ => trivial⟩
      | revoke => exact Safe.call fun _ _ _ _ => ⟨trivial, fun _ _ _ _ _ => trivial⟩
  cases errand with
  | visit v =>
    exact Safe.bind ((hserve v s).imp fun _ _ _ _ _ => Safe.pure fun _ _ _ => trivial)
  | explain actHash => exact certifies_read (Errand.only_explain actHash)

/-! ### Two deployments -/

section Deployments

variable {κ : Type} [DecidableEq ι] [DecidableEq κ]

/-- The database that clients leave. -/
def afterwards (P : Primitives) (service : AuthorityService) (db : Postgres)
    (errands : ι → Errand) (schedule : List ι) : Postgres :=
  (exec (Postgres.handle P) (attending P service db errands) schedule).state

/-- **Whatever passes through the doors**, the database keeps certifying itself. -/
theorem certified_exec {db : Postgres} (hdb : db.Constraints)
    (haddressed : ∀ h canon kind, db.objects.get? h = some (canon, kind) →
      IsAddress P kind canon h) (errands : ι → Errand) (schedule : List ι) :
    Postgres.Certified P db.acts (afterwards P service db errands schedule) :=
  (exec_safe (D := certifying P db.acts) (c := attending P service db errands)
    ⟨hdb, Postgres.certified_start hdb haddressed⟩ (fun i => certifies_run (errands i))
    fun _ _ _ _ _ => trivial).1.2

/-- **One hash attests a history.** Two deployments are started with the same Acts, and all
their objects under their addresses; for the rest, their databases, their services, their
clients and the order in which these work may be any. Where the hash of an Act that was
added in one is the hash of an Act that was added in the other, the histories up to these
Acts are the same Acts in the same order, and the Acts that were added up to there, with their
Commands, their Contexts and their payloads, are stored in both with the same content; or else
the two databases contain a collision. -/
theorem histories_attested (P : Primitives) (hdumps : P.InjectiveOnJson)
    (service service' : AuthorityService) (db db' : Postgres) (hdb : db.Constraints)
    (hdb' : db'.Constraints)
    (haddressed : ∀ h canon kind, db.objects.get? h = some (canon, kind) →
      IsAddress P kind canon h)
    (haddressed' : ∀ h canon kind, db'.objects.get? h = some (canon, kind) →
      IsAddress P kind canon h) (hstart : db.acts = db'.acts)
    (errands : ι → Errand) (errands' : κ → Errand) (schedule : List ι) (schedule' : List κ)
    (before after before' after' : List Act) (a a' : Act)
    (hacts : (afterwards P service db errands schedule).acts = before ++ a :: after)
    (hacts' : (afterwards P service' db' errands' schedule').acts = before' ++ a' :: after')
    (hbefore : db.acts <+: before) (hbefore' : db'.acts <+: before') (hhash : a.hash = a'.hash) :
    Postgres.Agree db.acts before before' (afterwards P service db errands schedule)
        (afterwards P service' db' errands' schedule') a a' ∨
      Postgres.Collision P (afterwards P service db errands schedule)
        (afterwards P service' db' errands' schedule') := by
  have hcertified' : Postgres.Certified P db'.acts (afterwards P service' db' errands' schedule') :=
    certified_exec hdb' haddressed' errands' schedule'
  rw [← hstart] at hcertified' hbefore'
  exact (certified_exec hdb haddressed errands schedule).agree hdumps hcertified' hacts hacts'
    hbefore hbefore' hhash

/-! One thing is created in two deployments: in one by a client that does not know whether it
is there, in the other while somebody asks about it. -/

/-- The definition of a name. -/
def definition (name : String) : CanonValue := .dict [("name", .str name)]

/-- The hash of a definition. -/
def definitionHash (name : String) : Hash :=
  match objectHash Sample.libraries "definition" (definition name) with
  | .ok h => h
  | .error e => e.message

/-- The names that the creation of a thing needs. -/
def namesNeeded : List (String × String) :=
  [("command_type", "CreateThing"), ("act_type", "ThingCreated"), ("context_type", oauthClient),
    ("context_type", performedBy), ("context_type", requestedBy), ("context_type", requesterKind),
    ("rule", ConfiguredRuleResolver.rootAuthorityName)]

/-- A database after its genesis, every object under its address. -/
def addressedDatabase : Postgres where
  objects := Dict.empty.merge ((Sample.payloadHash (.dict []), (Sample.text (.dict []), "payload"))
    :: namesNeeded.map fun e =>
      (definitionHash e.2, (Sample.text (definition e.2), "definition")))
  acts := [{ Sample.genesis Sample.pad with payloadHash := Sample.payloadHash (.dict []) }]
  registry := namesNeeded.map fun e =>
    ⟨definitionHash e.2, e.1, e.2, 1, Sample.genesisHash Sample.pad, true⟩
  identities := Sample.database.identities
  identityKeys := Sample.database.identityKeys
  principalBindings := []

/-- The Act by which the thing is created. -/
def creationAct : Act where
  hash := "0c3b" ++ Sample.pad
  actType := "ThingCreated"
  identityHash := Sample.root.hash
  parents := [Sample.genesisHash Sample.pad]
  decisionCut := {Sample.genesisHash Sample.pad}
  commandHash := createdCommand
  authChain := []
  registryCut := {Sample.genesisHash Sample.pad}
  ruleHashes := [definitionHash ConfiguredRuleResolver.rootAuthorityName]
  contextHash := "e8d8" ++ Sample.pad
  payloadHash := Sample.createThing.payloadHash
  claimedWhen := none

/-- The values that are written down on the way. -/
def writtenDown : List CanonValue :=
  .dict [] :: definition "one" :: creationAct.value ::
    (match Sample.createThing.command with
      | .ok command => command.signingValue
      | .error e => .str e.message) ::
    (match Sample.createThing.context (AuthorityService.derived Sample.root
        (Sample.root.hash, Sample.root.kind) none) with
      | .ok context => context.canonicalValue
      | .error e => .str e.message) ::
    namesNeeded.map fun e => definition e.2

/-- Libraries that write down these values and no others. -/
def attesting : Primitives :=
  { Sample.libraries with dumps := (Sample.spellingOf writtenDown).dumps }

theorem injectiveOnJson_attesting : attesting.InjectiveOnJson := by
  have htext : (writtenDown.map Sample.text).Nodup := by decide +kernel
  exact Sample.injectiveOnJson_spellingOf htext

theorem constraints_addressedDatabase : addressedDatabase.Constraints := by
  refine ⟨List.nodup_singleton _, List.nodup_singleton _, ?_, List.nodup_nil⟩
  intro a ha
  rw [List.mem_singleton.mp ha]
  exact ⟨(Sample.text (.dict []), "payload"), by decide +kernel⟩

theorem addressed_addressedDatabase : ∀ h canon kind,
    addressedDatabase.objects.get? h = some (canon, kind) →
      IsAddress attesting kind canon h := by
  have hall : ∀ e ∈ addressedDatabase.objects.entries, writtenDown.any (fun value =>
      decide ((canonicalize attesting value).toOption = some e.2.1 ∧
        (objectHash attesting e.2.2 value).toOption = some e.1)) = true := by
    decide +kernel
  intro h canon kind hget
  obtain ⟨value, -, hvalue⟩ :=
    List.any_eq_true.mp (hall _ (Dict.get?_eq_some_iff.mp hget))
  obtain ⟨hcanon, hhash⟩ := of_decide_eq_true hvalue
  exact ⟨value, Sample.ok_of_toOption hcanon, Sample.ok_of_toOption hhash⟩

/-- Both deployments have the Act, and so they have one history. -/
theorem histories_attested_thing : ∃ before after before' after' a a',
    (afterwards attesting Sample.authority addressedDatabase curious
      (List.replicate 31 false ++ List.replicate 4 true)).acts = before ++ a :: after ∧
    (afterwards attesting Sample.authority addressedDatabase
      (fun _ : Unit => .visit ⟨.commit, ⟨Sample.createThing, none⟩⟩)
      (List.replicate 31 ())).acts = before' ++ a' :: after' ∧ a.actType = "ThingCreated" ∧
    (Postgres.Agree addressedDatabase.acts before before'
        (afterwards attesting Sample.authority addressedDatabase curious
          (List.replicate 31 false ++ List.replicate 4 true))
        (afterwards attesting Sample.authority addressedDatabase
          (fun _ : Unit => .visit ⟨.commit, ⟨Sample.createThing, none⟩⟩)
          (List.replicate 31 ())) a a' ∨
      Postgres.Collision attesting
        (afterwards attesting Sample.authority addressedDatabase curious
          (List.replicate 31 false ++ List.replicate 4 true))
        (afterwards attesting Sample.authority addressedDatabase
          (fun _ : Unit => .visit ⟨.commit, ⟨Sample.createThing, none⟩⟩)
          (List.replicate 31 ()))) := by
  have hacts : (afterwards attesting Sample.authority addressedDatabase curious
      (List.replicate 31 false ++ List.replicate 4 true)).acts =
        addressedDatabase.acts ++ creationAct :: [] := by
    decide +kernel
  have hacts' : (afterwards attesting Sample.authority addressedDatabase
      (fun _ : Unit => .visit ⟨.commit, ⟨Sample.createThing, none⟩⟩)
      (List.replicate 31 ())).acts = addressedDatabase.acts ++ creationAct :: [] := by
    decide +kernel
  exact ⟨_, _, _, _, _, _, hacts, hacts', rfl, histories_attested attesting
    injectiveOnJson_attesting Sample.authority Sample.authority addressedDatabase
    addressedDatabase constraints_addressedDatabase constraints_addressedDatabase
    addressed_addressedDatabase addressed_addressedDatabase rfl curious _ _ _ _ _ _ _ _ _
    hacts hacts' List.prefix_rfl List.prefix_rfl rfl⟩

end Deployments

end Clients

end PowerfarmKernel
