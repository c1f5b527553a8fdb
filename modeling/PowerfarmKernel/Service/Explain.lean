import PowerfarmKernel.Kernel.Addressing
import PowerfarmKernel.Service.Soundness

/-!
# Explaining an Act

An Act refers to its Command, its Context and its payload by their hashes, and
`ExplainService.action` looks the three contents up again. The identity of an object says
what kind of object it is, so each reference should lead to an object of its own kind.

For the Command and the Context it always does: the gate stores both. The payload it stores
only where the request brings it along, and then under the tag of payloads; of a payload
that a request only names, the checks ask that some object stands there.
`PowerfarmKernel.AuthorityService.references_exact` says what follows.
-/

namespace PowerfarmKernel

open Prog LedgerM

/-- `Ledger.get_object`. -/
def LedgerM.getObject (objectHash : Hash) : LedgerM (Option ObjectRecord) :=
  Prog.call (LedgerOp.getObject objectHash)

/-- `act_to_dict`. -/
def actToDict (act : Act) : CanonValue := .dict
  [("hash", .str act.hash), ("act_type", .str act.actType),
    ("identity_hash", .str act.identityHash), ("parents", strings act.parents),
    ("decision_cut", strings (sorted act.decisionCut)), ("command_hash", .str act.commandHash),
    ("auth_chain", strings act.authChain), ("registry_cut", strings (sorted act.registryCut)),
    ("rule_hashes", strings act.ruleHashes), ("context_hash", .str act.contextHash),
    ("payload_hash", .str act.payloadHash),
    ("claimed_when", match act.claimedWhen with
      | some claimedWhen => .str claimedWhen
      | none => .null)]

namespace ExplainService

/-- An Act with the contents behind its references. -/
structure Explanation where
  act : CanonValue
  command : CanonValue
  context : CanonValue
  payload : CanonValue

variable (P : Primitives)

/-- `_decode`: nothing of no record, and a note where the content is no JSON. -/
def decode : Option ObjectRecord → CanonValue
  | none => .null
  | some record =>
      match P.loads record.canon with
      | some value => value
      | none =>
          .dict [("hash", .str record.hash), ("kind", .str record.kind), ("binary", .bool true)]

/-- `ExplainService.action`. -/
def action (actHash : Hash) : LedgerM Explanation := do
  let found ← getAct actHash
  match found with
  | none => .raise (notFoundError "Act not found")
  | some act => do
      let command ← getObject act.commandHash
      let context ← getObject act.contextHash
      let payload ← getObject act.payloadHash
      return {
        act := actToDict act
        command := decode P command
        context := decode P context
        payload := decode P payload }

variable {P} {known : MemoryLedger → String → String → Cut → Bool} {s : MemoryLedger} {a : Act}

theorem run_getObject {h : Hash} :
    (LedgerM.getObject h).run (MemoryLedger.handle known) s = (.ok (s.getObject h), s) :=
  Prog.run_call

/-- **The explanation of an Act of history**: what stands under its references is decoded. -/
theorem run_action (ha : s.acts.get? a.hash = some a) :
    (action P a.hash).run (MemoryLedger.handle known) s =
      (.ok {
        act := actToDict a
        command := decode P (s.getObject a.commandHash)
        context := decode P (s.getObject a.contextHash)
        payload := decode P (s.getObject a.payloadHash) }, s) := by
  rw [action, run_bind_of_eq MemoryLedger.run_getAct, ha]
  dsimp only
  rw [run_bind_of_eq run_getObject, run_bind_of_eq run_getObject, run_bind_of_eq run_getObject]
  rfl

end ExplainService

/-! ### References that resolve -/

/-- **A hash resolves to an object of a kind**: there is one under it, of that kind, and
the hash is the tagged digest of its bytes. -/
def Resolves (P : Primitives) (s : MemoryLedger) (kind : String) (h : Hash) : Prop :=
  ∃ canon, s.getObject h = some ⟨h, canon, kind⟩ ∧ h = taggedHash P kind canon

/-- **The references of an Act resolve**, each to an object of its own kind, and the
explanation of the Act has the content of each. -/
structure References (P : Primitives) (known : MemoryLedger → String → String → Cut → Bool)
    (s : MemoryLedger) (a : Act) : Prop where
  command : Resolves P s "command" a.commandHash
  context : Resolves P s "context" a.contextHash
  payload : Resolves P s "payload" a.payloadHash
  explained : ∃ command context payload : ObjectRecord,
    s.getObject a.commandHash = some command ∧ s.getObject a.contextHash = some context ∧
    s.getObject a.payloadHash = some payload ∧
    (ExplainService.action P a.hash).run (MemoryLedger.handle known) s =
      (.ok {
        act := actToDict a
        command := ExplainService.decode P (some command)
        context := ExplainService.decode P (some context)
        payload := ExplainService.decode P (some payload) }, s)

section Resolves

variable {P : Primitives} {known : MemoryLedger → String → String → Cut → Bool}
  {s t : MemoryLedger} {a : Act} {kind : String} {h : Hash} {canon : Bytes}

theorem Resolves.of_get? (hs : ObjectsAddressed P s)
    (hget : s.objects.get? h = some (canon, kind)) : Resolves P s kind h :=
  ⟨canon, by rw [MemoryLedger.getObject, hget]; rfl, (hs h canon kind hget).eq_taggedHash⟩

theorem Resolves.get? (hres : Resolves P s kind h) :
    ∃ canon, s.objects.get? h = some (canon, kind) := by
  obtain ⟨canon, hget, -⟩ := hres
  rw [MemoryLedger.getObject, Option.map_eq_some_iff] at hget
  obtain ⟨⟨canon', kind'⟩, hget, heq⟩ := hget
  cases heq
  exact ⟨_, hget⟩

/-- Where all three references resolve, the explanation follows. -/
theorem References.of_resolves (ha : s.acts.get? a.hash = some a)
    (hcommand : Resolves P s "command" a.commandHash)
    (hcontext : Resolves P s "context" a.contextHash)
    (hpayload : Resolves P s "payload" a.payloadHash) : References P known s a := by
  refine ⟨hcommand, hcontext, hpayload, ?_⟩
  obtain ⟨_, hcommand, -⟩ := hcommand
  obtain ⟨_, hcontext, -⟩ := hcontext
  obtain ⟨_, hpayload, -⟩ := hpayload
  refine ⟨_, _, _, hcommand, hcontext, hpayload, ?_⟩
  rw [ExplainService.run_action ha, hcommand, hcontext, hpayload]

end Resolves

/-! ### Runs of the service -/

namespace AuthorityService

open Runs

variable {P : Primitives} {service : AuthorityService}
  {known : MemoryLedger → String → String → Cut → Bool} {s t : MemoryLedger}
  {request : ActionRequest} {principal : Option RequestPrincipal} {E : EvaluatedAction} {a : Act}
  {call : Call} {calls pre : List Call} {k : Hash}

/-- A payload that has been checked against its hash is stored under its address. -/
theorem only_storePayload_addresses (hgiven : ∀ payload, request.payload = some payload →
    objectHash P "payload" payload = .ok request.payloadHash) :
    (storePayload P request).Only (LedgerOp.Addresses P) := by
  rw [storePayload]
  rcases hpayload : request.payload with _ | payload
  · exact .pure _
  · exact .ofExcept_bind fun canon hcanon => .call ⟨payload, hcanon, hgiven payload hpayload⟩

/-- What follows an evaluation stores under addresses only. -/
theorem only_admitEvaluated (hgiven : ∀ payload, request.payload = some payload →
    objectHash P "payload" payload = .ok request.payloadHash) :
    (admitEvaluated P request E).Only (LedgerOp.Addresses P) := by
  have hcommit : (commitEvaluated P request E).Only (LedgerOp.Addresses P) := by
    refine .bind (.call trivial) fun _ => .bind (.raiseWhen _ _) fun _ => ?_
    refine .bind (only_storePayload_addresses hgiven) fun _ => ?_
    refine .bind CommitGate.only_commit fun _ => ?_
    split
    · exact .pure _
    · exact .pure _
  refine .bind (.raiseWhen _ _) fun _ => ?_
  split
  · refine .bind ((only_settledConsequence E).mono fun _ ho => ho.addresses) fun settled => ?_
    rcases settled with _ | result
    · exact hcommit
    · exact .pure _
  · exact hcommit

/-- **A call keeps every object under its address**, whether it returns or raises. -/
theorem objectsAddressed_step (hs : ObjectsAddressed P s) (call : Call) :
    ObjectsAddressed P (step P service known s call) := by
  rw [AuthorityService.step, answer, commit, run_bind]
  rcases heval : (evaluate P service call.request call.principal).run (MemoryLedger.handle known) s
    with ⟨e | E, t⟩
  · have honly : (evaluate P service call.request call.principal).Only (LedgerOp.Addresses P) :=
      (only_evaluate call.request call.principal).mono fun _ ho => ho.addresses
    have hrun : ObjectsAddressed P ((evaluate P service call.request call.principal).run
        (MemoryLedger.handle known) s).2 := hs.run honly
    rwa [heval] at hrun
  · obtain ⟨rfl, hE⟩ := evaluate_ok heval
    exact hs.run (only_admitEvaluated hE.payloadGiven)

theorem objectsAddressed_exec (hs : ObjectsAddressed P s) (calls : List Call) :
    ObjectsAddressed P (exec P service known s calls) := by
  refine exec_inv (fun s call hs => ?_) hs calls
  exact objectsAddressed_step hs call

/-- **A request has a payload of its kind**: it brings the payload along, or it names one
that stands in the ledger as a payload. -/
def HasPayload (s : MemoryLedger) (request : ActionRequest) : Prop :=
  request.payload.isSome ∨ ∃ canon, s.objects.get? request.payloadHash = some (canon, "payload")

/-- **The references of an admitted Act resolve exactly when its request had a payload of
its kind**, in every ledger the one after the admission grows to. -/
theorem Committed.references_iff (h : Committed P service known s t request principal E a)
    {v : MemoryLedger} (hlater : MemoryLedger.Grows t v) (hv : ObjectsAddressed P v) :
    References P known v a ↔ HasPayload s request := by
  have hgrows : MemoryLedger.Grows s v := h.grows.trans hlater
  obtain ⟨u, hsame, hadm, hplaced, hstored⟩ := h.admitted
  have hpayload : a.payloadHash = request.payloadHash := by
    rw [hadm.payloadHash]
    exact (ActionRequest.command_ok h.evaluation.command).2.2.1
  have huv : u.objects ≤ v.objects := hplaced.objects.trans hlater.objects
  constructor
  · intro href
    obtain ⟨canon, hget⟩ := href.payload.get?
    rcases hgiven : request.payload with _ | payload
    · -- The payload was there before the call, and objects stay as they are.
      right
      obtain ⟨found, hfound⟩ := Option.isSome_iff_exists.mp (h.evaluation.payloadStored hgiven)
      rw [hpayload, hgrows.objects _ _ hfound] at hget
      exact ⟨canon, hfound.trans hget⟩
    · exact Or.inl (by rw [hgiven]; rfl)
  · intro hhas
    have ha : v.acts.get? a.hash = some a :=
      hlater.acts _ _ ((hplaced.get?_iff hadm.fresh).mpr (Or.inl ⟨rfl, rfl⟩))
    obtain ⟨_, -, hcommand⟩ := hplaced.commandObject
    obtain ⟨_, -, hcontext⟩ := hplaced.contextObject
    refine .of_resolves ha (.of_get? hv (hlater.objects _ _ hcommand))
      (.of_get? hv (hlater.objects _ _ hcontext)) ?_
    rw [hpayload]
    rcases hhas with hgiven | ⟨canon, hget⟩
    · obtain ⟨payload, hgiven⟩ := Option.isSome_iff_exists.mp hgiven
      obtain ⟨canon, -, hget⟩ := hstored payload hgiven
      exact .of_get? hv (huv _ _ hget)
    · exact .of_get? hv (hgrows.objects _ _ hget)

/-- **References resolve as far as the requests allow.** In a run from a ledger whose
objects stand under their addresses, no object ever changes; and the references of an Act
that the run adds resolve, from then on, exactly when the call that added it had a payload
of its kind. -/
theorem references_exact (P : Primitives) (service : AuthorityService)
    (known : MemoryLedger → String → String → Cut → Bool) (s : MemoryLedger)
    (hs : ObjectsAddressed P s) (calls : List Call) :
    (∀ pre, pre <+: calls →
        (exec P service known s pre).objects ≤ (exec P service known s calls).objects) ∧
      (∀ k a, s.acts.get? k = none → (exec P service known s calls).acts.get? k = some a →
        ∃ pre call, Made calls pre call ∧
          (exec P service known s pre).acts.get? a.hash = none ∧
          (exec P service known s (pre ++ [call])).acts.get? a.hash = some a ∧
          ∀ post, pre ++ [call] <+: post →
            (References P known (exec P service known s post) a ↔
              HasPayload (exec P service known s pre) call.request)) ∧
      ((∀ pre call, Made calls pre call → HasPayload (exec P service known s pre) call.request) →
        ∀ k a, s.acts.get? k = none → (exec P service known s calls).acts.get? k = some a →
          References P known (exec P service known s calls) a) := by
  have hadded : ∀ k a, s.acts.get? k = none →
      (exec P service known s calls).acts.get? k = some a →
      ∃ pre call, Made calls pre call ∧
        (exec P service known s pre).acts.get? a.hash = none ∧
        (exec P service known s (pre ++ [call])).acts.get? a.hash = some a ∧
        ∀ post, pre ++ [call] <+: post →
          (References P known (exec P service known s post) a ↔
            HasPayload (exec P service known s pre) call.request) := by
    intro k a hnew ha
    rcases get?_exec_cases ha with hinit | ⟨pre, call, E, hmade, hcommitted⟩
    · rw [hnew] at hinit
      cases hinit
    · obtain ⟨u, hsame, hadm, hplaced, -⟩ := hcommitted.admitted
      refine ⟨pre, call, hmade, ?_, (hplaced.get?_iff hadm.fresh).mpr (Or.inl ⟨rfl, rfl⟩), ?_⟩
      · rw [← hsame.acts]
        exact hadm.fresh
      · intro post hpost
        exact hcommitted.references_iff (grows_exec hpost) (objectsAddressed_exec hs post)
  refine ⟨fun pre hpre => (grows_exec hpre).objects, hadded, ?_⟩
  intro hall k a hnew ha
  obtain ⟨pre, call, hmade, -, -, hiff⟩ := hadded k a hnew ha
  exact (hiff calls hmade).mpr (hall pre call hmade)

/-- The office starts with no objects. -/
theorem objectsAddressed_office : ObjectsAddressed Sample.libraries Sample.office := by
  intro h canon kind hget
  cases hget

/-- The Act that makes a thing has its payload. -/
theorem references_exact_thing : ∃ a, a.actType = "ThingCreated" ∧
    References Sample.libraries MemoryLedger.registered created a := by
  have hrun : (created.acts.get? ("6441" ++ Sample.pad)).any
      (fun a => decide (a.actType = "ThingCreated")) = true := by
    decide +kernel
  unfold created at hrun ⊢
  rw [Option.any_eq_true] at hrun
  obtain ⟨a, ha, htype⟩ := hrun
  have hnew : Sample.office.acts.get? ("6441" ++ Sample.pad) = none := by decide +kernel
  refine ⟨a, of_decide_eq_true htype, ?_⟩
  refine (references_exact Sample.libraries Sample.authority MemoryLedger.registered Sample.office
    objectsAddressed_office [createCall]).2.2 ?_ _ a hnew ha
  intro pre call hmade
  rw [List.mem_singleton.mp hmade.mem]
  exact Or.inl rfl

/-- A second thing is asked for, and its payload is said to be the Act of the first. -/
def misnamed : ActionRequest :=
  let command := Sample.signed Sample.pad Sample.root.publicKey
    ⟨"CreateThing", Sample.root.hash, "6441" ++ Sample.pad, [Sample.genesisHash Sample.pad],
      "n-2", []⟩
  { commandType := command.commandType, identityHash := command.identityHash
    payloadHash := command.payloadHash, parents := command.parents, nonce := command.nonce
    signature := .ofList (Sample.urlsafeB64encode command.signature)
    contextValues := Dict.empty, contextTypes := Dict.empty, actType := "ThingCreated"
    payload := none }

/-- **A payload that is none**: the second thing is admitted, and its payload is an Act. -/
theorem payload_not_resolved : ObjectsAddressed Sample.libraries Sample.office ∧
    ∃ k a, Sample.office.acts.get? k = none ∧
      (exec Sample.libraries Sample.authority MemoryLedger.registered Sample.office
        [createCall, ⟨misnamed, none⟩]).acts.get? k = some a ∧
      ¬Resolves Sample.libraries (exec Sample.libraries Sample.authority MemoryLedger.registered
        Sample.office [createCall, ⟨misnamed, none⟩]) "payload" a.payloadHash := by
  refine ⟨objectsAddressed_office, "a183" ++ Sample.pad, ?_⟩
  have hrun : ((exec Sample.libraries Sample.authority MemoryLedger.registered Sample.office
      [createCall, ⟨misnamed, none⟩]).acts.get? ("a183" ++ Sample.pad)).any (fun a =>
        decide (((exec Sample.libraries Sample.authority MemoryLedger.registered Sample.office
          [createCall, ⟨misnamed, none⟩]).objects.get? a.payloadHash).map Prod.snd
            = some "act")) = true := by
    decide +kernel
  rw [Option.any_eq_true] at hrun
  obtain ⟨a, ha, hkind⟩ := hrun
  refine ⟨a, by decide +kernel, ha, fun hres => ?_⟩
  obtain ⟨canon, hget⟩ := hres.get?
  rw [decide_eq_true_eq, hget] at hkind
  have hsame : "payload" = "act" := Option.some.inj hkind
  exact absurd hsame (by decide)

end AuthorityService

end PowerfarmKernel
