import PowerfarmKernel.Ledger.Representation
import PowerfarmKernel.Service.Residue
import PowerfarmKernel.Service.Settlement

/-!
# The occurrence that was asked for

`commit` answers with an Act, and the Act need not be new: the consequence its Command has
bought already, or the Act that stands where the new one would. The service compares the
first with the request before it hands it out, field by field, and the list leaves out the
chain and the claimed time. `PowerfarmKernel.AuthorityService.answersAsked_iff` says when a
request is answered with the Act it asked for, or told that there is a conflict.

`PowerfarmKernel.AuthorityService.answersAsked_exec_iff` says what remains of that for a
ledger the service has written: Acts stand under the hash of their own content there, so
only the comparison can go wrong.
-/

namespace PowerfarmKernel

open Prog LedgerM

namespace AuthorityService

variable {P : Primitives} {service : AuthorityService}
  {known : MemoryLedger → String → String → Cut → Bool} {s t u : MemoryLedger}
  {request : ActionRequest} {principal : Option RequestPrincipal} {E E' : EvaluatedAction}
  {command : Command} {context : Context} {a : Act} {k : Hash}

/-! ### What was asked for -/

/-- **An Act is the one a request asked for**: it records the request, with its Command and
the Context it was evaluated in by their hashes. -/
structure AskedFor (P : Primitives) (request : ActionRequest) (command : Command)
    (context : Context) (a : Act) : Prop where
  actType : a.actType = request.actType
  identityHash : a.identityHash = request.identityHash
  commandHash : command.hash P = .ok a.commandHash
  parents : a.parents = request.parents
  contextHash : context.hash P = .ok a.contextHash
  payloadHash : a.payloadHash = request.payloadHash
  authChain : a.authChain = request.authChain
  claimedWhen : a.claimedWhen = request.claimedWhen

/-- **A request asks for a consequence**, and it is evaluated and permitted. -/
structure Asks (P : Primitives) (service : AuthorityService)
    (known : MemoryLedger → String → String → Cut → Bool) (s : MemoryLedger)
    (request : ActionRequest) (principal : Option RequestPrincipal) (E : EvaluatedAction) :
    Prop where
  evaluated : (evaluate P service request principal).run (MemoryLedger.handle known) s = (.ok E, s)
  permitted : E.decision.outcome ∈ permittedOutcomes E.actType
  consequential : request.actType ∉ lifecycleActTypes

theorem Asks.evaluation (h : Asks P service known s request principal E) :
    Evaluation P service known s request principal E :=
  (evaluate_ok h.evaluated).2

/-- **The consequence a Command has bought**: the first of the consequential Acts indexed
under it. -/
def Bought (P : Primitives) (s : MemoryLedger) (command : Command) (a : Act) : Prop :=
  ∃ commandHash acts, command.hash P = .ok commandHash ∧
    s.getActsForCommand commandHash = .ok acts ∧
    acts.find? (fun act => act.actType ∉ lifecycleActTypes) = some a

/-- **A request is answered with the Act it asked for**; and one whose Command has bought
another is told that there is a conflict. -/
structure AnswersAsked (P : Primitives) (service : AuthorityService)
    (known : MemoryLedger → String → String → Cut → Bool) (s : MemoryLedger)
    (request : ActionRequest) (principal : Option RequestPrincipal) : Prop where
  returned : ∀ E a t, (commit P service request principal).run (MemoryLedger.handle known) s
    = (.ok (E, a), t) → AskedFor P request E.command E.context a
  conflict : ∀ E a, Asks P service known s request principal E → Bought P s E.command a →
    ¬AskedFor P request E.command E.context a → ∃ text,
      ((commit P service request principal).run (MemoryLedger.handle known) s).1
        = .error (conflictError text)

/-! ### A Command that has bought its consequence -/

/-- What the service answers a Command with that has bought an Act. -/
def answerBought (P : Primitives) (E : EvaluatedAction) (a : Act) :
    Except Raised (EvaluatedAction × Act) :=
  let different := conflictError "Command already committed with different consequential inputs"
  if a.actType ≠ E.actType ∨ a.identityHash ≠ E.identity.hash ∨ a.parents ≠ E.command.parents then
    .error different
  else
    match E.context.hash P with
    | .error e => .error e
    | .ok contextHash =>
        if a.contextHash ≠ contextHash ∨ a.payloadHash ≠ E.command.payloadHash then
          .error different
        else .ok (replay E .allow a, a)

theorem run_settledConsequence_of_bought (h : Bought P s E.command a) :
    (settledConsequence P E).run (MemoryLedger.handle known) s
      = ((answerBought P E a).map some, s) := by
  obtain ⟨commandHash, acts, hhash, hacts, hfind⟩ := h
  have hrun : (getActsForCommand commandHash).run (MemoryLedger.handle known) s
      = (.ok acts, s) := by
    rw [MemoryLedger.run_getActsForCommand, hacts]
  rw [settledConsequence, hhash, run_bind_of_eq (run_ofExcept _), run_bind_of_eq hrun, hfind]
  dsimp only
  rw [run_bind, run_raiseWhen, answerBought]
  by_cases hfirst : a.actType ≠ E.actType ∨ a.identityHash ≠ E.identity.hash ∨
      a.parents ≠ E.command.parents
  · rw [if_pos hfirst, if_pos hfirst]
    rfl
  rw [if_neg hfirst, if_neg hfirst]
  dsimp only
  rw [run_bind, run_ofExcept]
  rcases E.context.hash P with e | contextHash
  · rfl
  dsimp only
  rw [run_bind, run_raiseWhen]
  by_cases hsecond : a.contextHash ≠ contextHash ∨ a.payloadHash ≠ E.command.payloadHash
  · rw [if_pos hsecond, if_pos hsecond]
    rfl
  · rw [if_neg hsecond, if_neg hsecond]
    rfl

/-- **A request whose Command has bought an Act is answered there**, and nothing is
written. -/
theorem run_commit_of_bought (h : Asks P service known s request principal E)
    (ha : Bought P s E.command a) :
    (commit P service request principal).run (MemoryLedger.handle known) s
      = (answerBought P E a, s) := by
  have hpermitted : (raiseWhen (E.decision.outcome ∉ permittedOutcomes E.actType)
      (authorizationError (outcomeRefusal E.actType E.decision.outcome))).run
        (MemoryLedger.handle known) s = (.ok (), s) :=
    run_raiseWhen_ok.mpr ⟨not_not.mpr h.permitted, rfl⟩
  have hcons : E.actType ∉ lifecycleActTypes := by
    rw [h.evaluation.actType]
    exact h.consequential
  rw [commit, run_bind_of_eq h.evaluated, admitEvaluated, run_bind_of_eq hpermitted, if_pos hcons,
    run_bind, run_settledConsequence_of_bought ha]
  rcases answerBought P E a with e | x
  · rfl
  · rfl

theorem answerBought_ok_iff {x : EvaluatedAction × Act} (ha : Bought P s E.command a) :
    answerBought P E a = .ok x ↔ Settled P s E a ∧ x = (replay E .allow a, a) := by
  rw [answerBought]
  constructor
  · intro h
    split at h
    · cases h
    rename_i hfirst
    rw [not_or, not_or, not_not, not_not, not_not] at hfirst
    split at h
    · cases h
    rename_i contextHash hcontext
    split at h
    · cases h
    rename_i hsecond
    rw [not_or, not_not, not_not] at hsecond
    cases h
    exact ⟨{
      owned := ha
      actType := hfirst.1
      identityHash := hfirst.2.1
      parents := hfirst.2.2
      contextHash := by rw [hcontext, hsecond.1]
      payloadHash := hsecond.2 }, rfl⟩
  · rintro ⟨h, rfl⟩
    rw [if_neg (by simp [h.actType, h.identityHash, h.parents]), h.contextHash]
    dsimp only
    rw [if_neg (by simp [h.payloadHash])]

/-- **What is not answered** is a conflict, or a Context that has no hash to compare. -/
theorem answerBought_error {e : Raised} (h : answerBought P E a = .error e) :
    (∃ text, e = conflictError text) ∨
      a.actType = E.actType ∧ a.identityHash = E.identity.hash ∧
        a.parents = E.command.parents ∧ ∀ contextHash, E.context.hash P ≠ .ok contextHash := by
  rw [answerBought] at h
  split at h
  · cases h
    exact Or.inl ⟨_, rfl⟩
  rename_i hfirst
  rw [not_or, not_or, not_not, not_not, not_not] at hfirst
  rcases hhash : E.context.hash P with _ | contextHash
  · exact Or.inr ⟨hfirst.1, hfirst.2.1, hfirst.2.2, fun _ heq => by cases heq⟩
  · rw [hhash] at h
    dsimp only at h
    split at h
    · cases h
      exact Or.inl ⟨_, rfl⟩
    · cases h

/-- What has been compared, and what has not, make up the Act that was asked for. -/
theorem Settled.askedFor (h : Settled P s E a)
    (hE : Evaluation P service known s request principal E)
    (hcommand : E.command.hash P = .ok a.commandHash) (hchain : a.authChain = request.authChain)
    (hclaimed : a.claimedWhen = request.claimedWhen) :
    AskedFor P request E.command E.context a := by
  obtain ⟨-, hsigner, hpayload, hparents⟩ := ActionRequest.command_ok hE.command
  obtain ⟨rules, -, -, hdecision⟩ := hE.rules
  exact {
    actType := h.actType.trans hE.actType
    identityHash := by rw [h.identityHash, (authorize_ok hdecision).2.2.2, hsigner]
    commandHash := hcommand
    parents := h.parents.trans hparents
    contextHash := h.contextHash
    payloadHash := h.payloadHash.trans hpayload
    authChain := hchain
    claimedWhen := hclaimed }

/-! ### A place that is taken -/

/-- The payload of a request can be stored: its hash stands for nothing else. -/
def Storable (P : Primitives) (s : MemoryLedger) (request : ActionRequest) : Prop :=
  ∀ payload, request.payload = some payload →
    ¬s.objects.Clashes request.payloadHash (canonBytes P payload, "payload")

/-- The ledger once the payload of a request is stored, if it has one. -/
def payloadStored (P : Primitives) (s : MemoryLedger) (request : ActionRequest) : MemoryLedger :=
  match request.payload with
  | none => s
  | some payload => withPayload P s request payload

theorem run_storePayload_of_storable (hE : Evaluation P service known s request principal E)
    (h : Storable P s request) :
    (storePayload P request).run (MemoryLedger.handle known) s
      = (.ok (), payloadStored P s request) := by
  rw [storePayload, payloadStored]
  rcases hpayload : request.payload with _ | payload
  · rfl
  · dsimp only
    rw [canonicalize_of_objectHash (hE.payloadGiven payload hpayload),
      run_bind_of_eq (run_ofExcept _), run_putObject_of_not_clashes (h payload hpayload),
      withPayload]

theorem sameHistory_payloadStored (hE : Evaluation P service known s request principal E)
    (h : Storable P s request) : MemoryLedger.SameHistory s (payloadStored P s request) :=
  sameHistory_storePayload (run_storePayload_of_storable hE h)

theorem storable_of_run (hE : Evaluation P service known s request principal E)
    (hrun : (storePayload P request).run (MemoryLedger.handle known) s = (.ok (), u)) :
    Storable P s request := by
  intro payload hpayload hclash
  rw [run_storePayload_of_clashes hE hpayload hclash] at hrun
  cases hrun

/-- An evaluated Command is the Identity's own, and signed by it. -/
theorem Evaluation.signed (hE : Evaluation P service known s request principal E) :
    E.identity.hash = E.command.identityHash ∧ E.command.verifies P E.identity = true := by
  obtain ⟨rules, -, -, hdecision⟩ := hE.rules
  exact ⟨(authorize_ok hdecision).2.2.2, hE.verified⟩

/-- **What is answered once the payload is stored**: the Act that stands at the place asked
for, or a new one. -/
theorem storeAndCommit_ok {x : EvaluatedAction × Act}
    (hrun : (storeAndCommit P request E).run (MemoryLedger.handle known) s = (.ok x, t)) :
    x.1.command = E.command ∧ x.1.context = E.context ∧ ∃ u,
      (storePayload P request).run (MemoryLedger.handle known) s = (.ok (), u) ∧
      ((∃ k, (submission request E).occurrence P = .ok k ∧ s.acts.get? k = some x.2) ∨
        Admission P known u (submission request E) x.2) := by
  rw [storeAndCommit] at hrun
  obtain ⟨_, u, hstore, hrun⟩ := run_bind_ok.mp hrun
  obtain ⟨a, v, hgate, hrun⟩ := run_bind_ok.mp hrun
  have hanswer : x.2 = a ∧ x.1.command = E.command ∧ x.1.context = E.context := by
    split at hrun
    · cases hrun
      exact ⟨rfl, rfl, rfl⟩
    · cases hrun
      exact ⟨rfl, rfl, rfl⟩
  obtain ⟨rfl, hcommand, hcontext⟩ := hanswer
  refine ⟨hcommand, hcontext, u, hstore, ?_⟩
  rcases CommitGate.commit_cases hgate with
    ⟨_, herr, -⟩ | ⟨b, k, hb, hocc, hget, -⟩ | ⟨b, hb, hadm, -⟩
  · cases herr
  · cases hb
    rw [(sameHistory_storePayload hstore).acts] at hget
    exact Or.inl ⟨k, hocc, hget⟩
  · cases hb
    exact Or.inr hadm

/-- **The Act that stands at the place asked for is the answer**, whatever it is. -/
theorem run_storeAndCommit_of_taken (hE : Evaluation P service known s request principal E)
    (hstorable : Storable P s request) (hocc : (submission request E).occurrence P = .ok k)
    (ha : s.acts.get? k = some a) :
    ∃ E' t, (storeAndCommit P request E).run (MemoryLedger.handle known) s = (.ok (E', a), t) ∧
      E'.command = E.command ∧ E'.context = E.context := by
  have hreplays : CommitGate.Replays P (payloadStored P s request) (submission request E) a :=
    ⟨hE.signed.1, hE.signed.2, k, hocc, by
      rw [(sameHistory_payloadStored hE hstorable).acts]
      exact ha⟩
  rw [storeAndCommit, run_bind_of_eq (run_storePayload_of_storable hE hstorable),
    run_bind_of_eq (CommitGate.run_commit_of_replays hreplays)]
  split
  · exact ⟨_, _, rfl, rfl, rfl⟩
  · exact ⟨_, _, rfl, rfl, rfl⟩

/-- The Act that the gate is asked for is the one the request asked for. -/
theorem askedFor_actOf {commandHash contextHash : Hash}
    (hE : Evaluation P service known s request principal E)
    (hcommand : E.command.hash P = .ok commandHash)
    (hcontext : E.context.hash P = .ok contextHash) :
    AskedFor P request E.command E.context
      (CommitGate.actOf (submission request E) k commandHash contextHash) := by
  obtain ⟨-, hsigner, hpayload, hparents⟩ := ActionRequest.command_ok hE.command
  exact {
    actType := hE.actType
    identityHash := hE.signed.1.trans hsigner
    commandHash := hcommand
    parents := hparents
    contextHash := hcontext
    payloadHash := hpayload
    authChain := hE.authChain
    claimedWhen := rfl }

/-! ### Where the comparison looks away -/

/-- **The comparison overlooks something.** -/
inductive Overlooks (P : Primitives) (service : AuthorityService)
    (known : MemoryLedger → String → String → Cut → Bool) (s : MemoryLedger)
    (request : ActionRequest) (principal : Option RequestPrincipal) : Prop
  /-- The Act the Command has bought agrees with the request in all that is compared, and not
  in its Command, its chain or its claimed time. -/
  | unlike {E : EvaluatedAction} {a : Act} (asks : Asks P service known s request principal E)
      (settled : Settled P s E a)
      (differs : E.command.hash P ≠ .ok a.commandHash ∨ a.authChain ≠ request.authChain ∨
        a.claimedWhen ≠ request.claimedWhen)
  /-- The Act agrees in all that is compared before the Context, and the Context has no
  canonical form. -/
  | unhashed {E : EvaluatedAction} {a : Act} (asks : Asks P service known s request principal E)
      (bought : Bought P s E.command a) (actType : a.actType = request.actType)
      (identityHash : a.identityHash = request.identityHash)
      (parents : a.parents = request.parents) (unhashed : ∀ h, E.context.hash P ≠ .ok h)
  /-- The Command has bought nothing, and another Act stands under the hash of the one that
  is asked for. -/
  | misfiled {E : EvaluatedAction} {k : Hash} {a : Act}
      (reaches : Reaches P service known s request principal E)
      (storable : Storable P s request) (place : (submission request E).occurrence P = .ok k)
      (stands : s.acts.get? k = some a) (differs : ¬AskedFor P request E.command E.context a)

/-- A Context without a hash is no conflict. -/
theorem answerBought_of_unhashed (hE : Evaluation P service known s request principal E)
    (hactType : a.actType = request.actType) (hidentity : a.identityHash = request.identityHash)
    (hparents : a.parents = request.parents) (hunhashed : ∀ h, E.context.hash P ≠ .ok h)
    (text : String) : answerBought P E a ≠ .error (conflictError text) := by
  obtain ⟨-, hsigner, -, hcommand⟩ := ActionRequest.command_ok hE.command
  have hsame : ¬(a.actType ≠ E.actType ∨ a.identityHash ≠ E.identity.hash ∨
      a.parents ≠ E.command.parents) := by
    simp [hactType, hE.actType, hidentity, hE.signed.1, hsigner, hparents, hcommand]
  rw [answerBought, if_neg hsame]
  rcases hhash : E.context.hash P with e | h
  · rintro heq
    cases heq
    rcases objectHash_error hhash with hcls | hcls <;> cases hcls
  · exact absurd hhash (hunhashed h)

/-- **How a request comes to be answered**: with the consequence its Command has bought, or
from the gate. -/
theorem answered_cases
    (hrun : (commit P service request principal).run (MemoryLedger.handle known) s
      = (.ok (E', a), t)) :
    ∃ E, (Asks P service known s request principal E ∧ Settled P s E a ∧
        E'.command = E.command ∧ E'.context = E.context) ∨
      (Reaches P service known s request principal E ∧
        (storeAndCommit P request E).run (MemoryLedger.handle known) s = (.ok (E', a), t)) := by
  rcases run_commit_cases hrun with ⟨e, herr, -⟩ | ⟨E, heval, hpermitted, hanswer⟩
  · cases herr
  refine ⟨E, ?_⟩
  rcases hanswer with ⟨b, hb, hcons, ha, -⟩ | ⟨hunsettled, hend⟩
  · cases hb
    exact Or.inl ⟨⟨heval, hpermitted, hcons⟩, ha, rfl, rfl⟩
  have hcut : E.decision.cut = s.historyCut := by
    rcases run_commitEvaluated_cases hend with ⟨_, herr, -⟩ | ⟨hcut, -⟩
    · cases herr
    · exact hcut
  have hreaches : Reaches P service known s request principal E :=
    ⟨heval, hpermitted, hunsettled, hcut⟩
  rw [run_commit_of_reaches hreaches] at hrun
  exact Or.inr ⟨hreaches, hrun⟩

/-- Where nothing is overlooked, the Act a Command has bought and the comparison lets pass is
the one asked for. -/
theorem Settled.askedFor_of_not_overlooks (h : Settled P s E a)
    (hasks : Asks P service known s request principal E)
    (hnot : ¬Overlooks P service known s request principal) :
    AskedFor P request E.command E.context a := by
  by_contra hdiffers
  refine hnot (.unlike hasks h ?_)
  by_contra hsame
  rw [not_or, not_or, not_not, not_not, not_not] at hsame
  exact hdiffers (h.askedFor hasks.evaluation hsame.1 hsame.2.1 hsame.2.2)

/-- Where nothing is overlooked, so is the Act the gate answers with. -/
theorem Reaches.askedFor (h : Reaches P service known s request principal E)
    (hnot : ¬Overlooks P service known s request principal)
    (hrun : (storeAndCommit P request E).run (MemoryLedger.handle known) s = (.ok (E', a), t)) :
    AskedFor P request E'.command E'.context a := by
  obtain ⟨hcommand, hcontext, u, hstore, hact⟩ := storeAndCommit_ok hrun
  rw [hcommand, hcontext]
  rcases hact with ⟨k, hocc, hget⟩ | hadm
  · by_contra hdiffers
    exact hnot (.misfiled h (storable_of_run h.evaluation hstore) hocc hget hdiffers)
  · have hact : a = CommitGate.actOf (submission request E) a.hash a.commandHash a.contextHash :=
      hadm.act_eq
    rw [hact]
    exact askedFor_actOf h.evaluation hadm.commandHash hadm.contextHash

/-- **A request is answered with the Act it asked for, or told of the conflict, exactly when
the comparison overlooks nothing.** -/
theorem answersAsked_iff (P : Primitives) (service : AuthorityService)
    (known : MemoryLedger → String → String → Cut → Bool) (s : MemoryLedger)
    (request : ActionRequest) (principal : Option RequestPrincipal) :
    AnswersAsked P service known s request principal ↔
      ¬Overlooks P service known s request principal := by
  constructor
  · rintro h (⟨asks, settled, differs⟩ | ⟨asks, bought, actType, identityHash, parents, unhashed⟩ |
      ⟨reaches, storable, place, stands, differs⟩)
    · have hanswer := (answerBought_ok_iff settled.owned).mpr ⟨settled, rfl⟩
      have hrun := run_commit_of_bought asks settled.owned
      rw [hanswer] at hrun
      have hasked := h.returned _ _ _ hrun
      rcases differs with hcommand | hchain | hclaimed
      · exact hcommand hasked.commandHash
      · exact hchain hasked.authChain
      · exact hclaimed hasked.claimedWhen
    · obtain ⟨text, herror⟩ := h.conflict _ _ asks bought fun hasked =>
        unhashed _ hasked.contextHash
      rw [run_commit_of_bought asks bought] at herror
      exact answerBought_of_unhashed asks.evaluation actType identityHash parents unhashed text
        herror
    · obtain ⟨E', t, hrun, hcommand, hcontext⟩ :=
        run_storeAndCommit_of_taken reaches.evaluation storable place stands
      rw [← run_commit_of_reaches reaches] at hrun
      have hasked := h.returned _ _ _ hrun
      rw [hcommand, hcontext] at hasked
      exact differs hasked
  · intro hnot
    constructor
    · intro E' a t hrun
      obtain ⟨E, ⟨hasks, hsettled, hcommand, hcontext⟩ | ⟨hreaches, hrun⟩⟩ := answered_cases hrun
      · rw [hcommand, hcontext]
        exact hsettled.askedFor_of_not_overlooks hasks hnot
      · exact hreaches.askedFor hnot hrun
    · intro E a hasks ha hdiffers
      rw [run_commit_of_bought hasks ha]
      rcases hanswer : answerBought P E a with e | x
      · rcases answerBought_error hanswer with
          ⟨text, rfl⟩ | ⟨hactType, hidentity, hparents, hunhashed⟩
        · exact ⟨text, rfl⟩
        -- The only other thing that raises is the hash of the Context.
        · obtain ⟨-, hsigner, -, hrequest⟩ := ActionRequest.command_ok hasks.evaluation.command
          refine absurd (Overlooks.unhashed hasks ha (hactType.trans hasks.evaluation.actType) ?_
            (hparents.trans hrequest) hunhashed) hnot
          rw [hidentity, hasks.evaluation.signed.1, hsigner]
      · obtain ⟨hsettled, -⟩ := (answerBought_ok_iff ha).mp hanswer
        exact absurd (hsettled.askedFor_of_not_overlooks hasks hnot) hdiffers

/-- A thing that was made is asked for again, this time as of noon. -/
def createAtNoon : ActionRequest := { Sample.createThing with claimedWhen := some "noon" }

/-- **A request for another occurrence is answered with the old one**: the Act claims no
time. -/
theorem claimed_time_overlooked : ¬AnswersAsked Sample.libraries Sample.authority
    MemoryLedger.registered created createAtNoon none := by
  intro h
  have hrun : ((commit Sample.libraries Sample.authority createAtNoon none).run
      (MemoryLedger.handle MemoryLedger.registered) created).1.toOption.any
        (fun x => x.2.claimedWhen = none) = true := by
    decide +kernel
  rcases hcommit : (commit Sample.libraries Sample.authority createAtNoon none).run
    (MemoryLedger.handle MemoryLedger.registered) created with ⟨e | ⟨E, a⟩, t⟩
  · rw [hcommit] at hrun
    cases hrun
  · rw [hcommit] at hrun
    have hclaimed : a.claimedWhen = none := of_decide_eq_true hrun
    have heq := hclaimed.symm.trans (h.returned E a t hcommit).claimedWhen
    cases heq

/-! ### Ledgers the service has written -/

/-- **Acts stand under the hash of their own content**, but for those under a hash that no
content has, such as the Act of genesis. -/
def Addressed (P : Primitives) (s : MemoryLedger) : Prop :=
  ∀ k a, s.acts.get? k = some a → a.hash = k ∧
    (objectHash P "act" a.value = .ok k ∨ ∀ b : Act, objectHash P "act" b.value ≠ .ok k)

theorem Addressed.of_placed {c : Submission} (h : Addressed P s) (hadm : Admission P known s c a)
    (hplaced : Placed P s t c a) : Addressed P t := by
  intro k b hb
  rcases (hplaced.get?_iff hadm.fresh).mp hb with ⟨rfl, rfl⟩ | hold
  · refine ⟨rfl, Or.inl ?_⟩
    rw [hadm.value]
    exact hadm.hash
  · exact h k b hold

theorem Addressed.of_sameHistory (h : Addressed P s) (hsame : MemoryLedger.SameHistory s t) :
    Addressed P t := by
  intro k a ha
  rw [hsame.acts] at ha
  exact h k a ha

/-- **Every call of the service keeps it.** -/
theorem Addressed.exec (h : Addressed P s) (calls : List Call) :
    Addressed P (AuthorityService.exec P service known s calls) := by
  refine Runs.exec_inv (fun s call hs => ?_) h calls
  rcases step_cases P service known s call with hkept | ⟨u, c, a, hkept, hadm, hplaced⟩
  · exact hs.of_sameHistory hkept
  · exact (hs.of_sameHistory hkept).of_placed hadm hplaced

/-- **Every run of the gate keeps it.** -/
theorem Addressed.exec_gate (h : Addressed P s) (calls : List Submission) :
    Addressed P (Gate.exec P known s calls) := by
  refine Runs.exec_inv (fun s c hs => ?_) h calls
  rcases Gate.step_cases P known s c with hkept | ⟨a, ha⟩
  · exact hs.of_sameHistory hkept
  · exact hs.of_placed ha.admission ha.placed

/-- **What stands at the place a call asks for is the Act it asks for**, where Acts stand under
the hash of their own content. -/
theorem Addressed.eq_actOf (h : Addressed P s) (hdumps : P.InjectiveOnJson)
    (hsha : Function.Injective P.sha256) {c : Submission} (hocc : c.occurrence P = .ok k)
    (ha : s.acts.get? k = some a) :
    ∃ commandHash contextHash, c.command.hash P = .ok commandHash ∧
      c.context.hash P = .ok contextHash ∧ a = CommitGate.actOf c k commandHash contextHash := by
  obtain ⟨commandHash, contextHash, hcommand, hcontext, hhash⟩ := Submission.occurrence_ok hocc
  obtain ⟨hkey, hvalue | hnone⟩ := h k a ha
  · exact ⟨commandHash, contextHash, hcommand, hcontext,
      Act.eq_of_sameJson (sameJson_of_objectHash hdumps hsha hvalue hhash) hkey⟩
  · exact absurd hhash (hnone _)

/-- So a request is answered there with the Act it asked for. -/
theorem Addressed.askedFor (h : Addressed P s) (hdumps : P.InjectiveOnJson)
    (hsha : Function.Injective P.sha256)
    (hE : Evaluation P service known s request principal E)
    (hocc : (submission request E).occurrence P = .ok k) (ha : s.acts.get? k = some a) :
    AskedFor P request E.command E.context a := by
  obtain ⟨commandHash, contextHash, hcommand, hcontext, hact⟩ := h.eq_actOf hdumps hsha hocc ha
  rw [hact]
  exact askedFor_actOf hE hcommand hcontext

/-- The Act a Command has bought is an Act of that Command. -/
theorem Bought.commandHash (h : Bought P s command a) (hs : OneChange P s) :
    command.hash P = .ok a.commandHash := by
  obtain ⟨commandHash, acts, hhash, hacts, hfind⟩ := h
  obtain ⟨k, hk, ha⟩ := (Gate.mem_owned hacts).mp (List.mem_of_find?_eq_some hfind)
  obtain ⟨b, hb, hcommand⟩ := hs.indexed commandHash k hk
  rw [ha] at hb
  cases hb
  rw [hhash, hcommand]

/-- **In every ledger the service can bring about, only the comparison goes wrong**: a
request is answered as it should be unless its Command has bought an Act that agrees in all
that is compared and differs in the chain or the claimed time, or agrees as far as a Context
that has no canonical form. -/
theorem answersAsked_exec_iff (hdumps : P.InjectiveOnJson) (hsha : Function.Injective P.sha256)
    (hs : Addressed P s) (hone : OneChange P s) (calls : List Call) :
    AnswersAsked P service known (exec P service known s calls) request principal ↔
      ∀ E a, Asks P service known (exec P service known s calls) request principal E →
        Bought P (exec P service known s calls) E.command a → a.actType = request.actType →
        a.identityHash = request.identityHash → a.parents = request.parents →
        (∃ h, E.context.hash P = .ok h) ∧
          (Settled P (exec P service known s calls) E a →
            a.authChain = request.authChain ∧ a.claimedWhen = request.claimedWhen) := by
  rw [answersAsked_iff]
  constructor
  · intro hnot E a hasks ha hactType hidentity hparents
    constructor
    · by_contra hunhashed
      exact hnot (.unhashed hasks ha hactType hidentity hparents fun h hh => hunhashed ⟨h, hh⟩)
    · intro hsettled
      by_contra hdiffers
      refine hnot (.unlike hasks hsettled (Or.inr ?_))
      rw [← not_and_or]
      exact hdiffers
  · rintro hall (⟨asks, settled, differs⟩ | ⟨asks, bought, actType, identityHash, parents,
      unhashed⟩ | ⟨reaches, -, place, stands, differs⟩)
    · obtain ⟨-, hsigner, -, hparents⟩ := ActionRequest.command_ok asks.evaluation.command
      have hbought : Bought P _ _ _ := settled.owned
      obtain ⟨hchain, hclaimed⟩ := (hall _ _ asks hbought
        (settled.actType.trans asks.evaluation.actType)
        (settled.identityHash.trans (asks.evaluation.signed.1.trans hsigner))
        (settled.parents.trans hparents)).2 settled
      rcases differs with hcommand | hdiffers | hdiffers
      · exact hcommand (hbought.commandHash (oneChange_exec hone calls))
      · exact hdiffers hchain
      · exact hdiffers hclaimed
    · obtain ⟨⟨h, hh⟩, -⟩ := hall _ _ asks bought actType identityHash parents
      exact unhashed h hh
    · exact differs ((hs.exec calls).askedFor hdumps hsha reaches.evaluation place stands)

end AuthorityService

end PowerfarmKernel
