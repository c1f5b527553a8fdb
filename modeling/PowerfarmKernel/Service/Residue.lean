import PowerfarmKernel.Kernel.Writes
import PowerfarmKernel.Service.Evaluation
import PowerfarmKernel.Service.Sample

/-!
# What a call that raises leaves behind

`AuthorityService.commit` writes in two layers: the service stores the payload of the
request, and then the gate stores the Command, the Context and the Act. Nothing is taken
back when a later check or a later write raises. History is safe
(`PowerfarmKernel.AuthorityService.commit_cases`); the objects are not.

`PowerfarmKernel.AuthorityService.LeavesResidue` lists the ways in which an object is left
without its Act, and `PowerfarmKernel.AuthorityService.raises_unchanged_iff` says that there
are no others.
-/

namespace PowerfarmKernel

open Prog LedgerM

namespace AuthorityService

variable {P : Primitives} {service : AuthorityService}
  {known : MemoryLedger → String → String → Cut → Bool} {s t : MemoryLedger}
  {request : ActionRequest} {principal : Option RequestPrincipal} {E E' : EvaluatedAction} {a : Act}

/-! ### How far a call gets -/

/-- **A call gets as far as its first write**: it is evaluated and permitted, its Command has
no consequence yet, and history is where the evaluation left it. -/
structure Reaches (P : Primitives) (service : AuthorityService)
    (known : MemoryLedger → String → String → Cut → Bool) (s : MemoryLedger)
    (request : ActionRequest) (principal : Option RequestPrincipal) (E : EvaluatedAction) :
    Prop where
  evaluated : (evaluate P service request principal).run (MemoryLedger.handle known) s = (.ok E, s)
  permitted : E.decision.outcome ∈ permittedOutcomes E.actType
  unsettled : request.actType ∉ lifecycleActTypes → ∃ commandHash acts,
    E.command.hash P = .ok commandHash ∧ s.getActsForCommand commandHash = .ok acts ∧
    ∀ b ∈ acts, b.actType ∈ lifecycleActTypes
  current : E.decision.cut = s.historyCut

theorem Reaches.evaluation (h : Reaches P service known s request principal E) :
    Evaluation P service known s request principal E :=
  (evaluate_ok h.evaluated).2

theorem Reaches.unique (h : Reaches P service known s request principal E)
    (h' : Reaches P service known s request principal E') : E = E' := by
  have heq := h.evaluated.symm.trans h'.evaluated
  exact Except.ok.inj (Prod.mk.inj heq).1

/-- A Command without a consequence has nothing to replay. -/
theorem run_settledConsequence_none {commandHash : Hash} {acts : List Act}
    (hhash : E.command.hash P = .ok commandHash)
    (hacts : s.getActsForCommand commandHash = .ok acts)
    (hstages : ∀ b ∈ acts, b.actType ∈ lifecycleActTypes) :
    (settledConsequence P E).run (MemoryLedger.handle known) s = (.ok none, s) := by
  have hfind : acts.find? (fun act => act.actType ∉ lifecycleActTypes) = none :=
    List.find?_eq_none.mpr fun b hb => by simpa using hstages b hb
  have hrun : (getActsForCommand commandHash).run (MemoryLedger.handle known) s
      = (.ok acts, s) := by
    rw [MemoryLedger.run_getActsForCommand, hacts]
  rw [settledConsequence, hhash, run_bind_of_eq (run_ofExcept _), run_bind_of_eq hrun, hfind]
  rfl

/-- The end of `commit` once history is known not to have moved. -/
def storeAndCommit (P : Primitives) (request : ActionRequest) (E : EvaluatedAction) :
    LedgerM (EvaluatedAction × Act) := do
  storePayload P request
  let act ← CommitGate.commit P (submission request E)
  if act.hash ∈ E.decision.cut then return (replay E E.decision.outcome act, act)
  else return (E, act)

/-- **A call that gets as far as its first write** stores the payload and calls the gate. -/
theorem run_commit_of_reaches (h : Reaches P service known s request principal E) :
    (commit P service request principal).run (MemoryLedger.handle known) s
      = (storeAndCommit P request E).run (MemoryLedger.handle known) s := by
  have hactType : E.actType = request.actType := h.evaluation.actType
  have hpermitted : (raiseWhen (E.decision.outcome ∉ permittedOutcomes E.actType)
      (authorizationError (outcomeRefusal E.actType E.decision.outcome))).run
        (MemoryLedger.handle known) s = (.ok (), s) :=
    run_raiseWhen_ok.mpr ⟨not_not.mpr h.permitted, rfl⟩
  have hcurrent : (raiseWhen (E.decision.cut ≠ s.historyCut)
      (conflictError "history advanced after evaluation; reauthorization required")).run
        (MemoryLedger.handle known) s = (.ok (), s) :=
    run_raiseWhen_ok.mpr ⟨not_not.mpr h.current, rfl⟩
  have hend : (commitEvaluated P request E).run (MemoryLedger.handle known) s
      = (storeAndCommit P request E).run (MemoryLedger.handle known) s := by
    rw [commitEvaluated, run_bind_of_eq MemoryLedger.run_historyCut, run_bind_of_eq hcurrent,
      storeAndCommit, h.current]
  rw [commit, run_bind_of_eq h.evaluated, admitEvaluated, run_bind_of_eq hpermitted]
  by_cases hcons : E.actType ∉ lifecycleActTypes
  · obtain ⟨commandHash, acts, hhash, hacts, hstages⟩ := h.unsettled (hactType ▸ hcons)
    rw [if_pos hcons, run_bind_of_eq (run_settledConsequence_none hhash hacts hstages)]
    exact hend
  · rw [if_neg hcons]
    exact hend

/-- **A call that does not get that far** writes nothing. -/
theorem run_commit_of_not_reaches {r : Except Raised (EvaluatedAction × Act)}
    (h : ∀ E, ¬Reaches P service known s request principal E)
    (hrun : (commit P service request principal).run (MemoryLedger.handle known) s = (r, t)) :
    t = s := by
  rcases run_commit_cases hrun with ⟨e, -, ht⟩ | ⟨E, heval, hpermitted, hanswer⟩
  · exact ht
  rcases hanswer with ⟨a, -, -, -, ht⟩ | ⟨hunsettled, hend⟩
  · exact ht
  · by_cases hcut : E.decision.cut = s.historyCut
    · exact absurd ⟨heval, hpermitted, hunsettled, hcut⟩ (h E)
    · rw [commitEvaluated, run_bind_of_eq MemoryLedger.run_historyCut, run_bind, run_raiseWhen,
        if_pos hcut] at hend
      cases hend
      rfl

/-! ### What a call leaves behind -/

/-- The ledger once the payload of a request is stored. -/
def withPayload (P : Primitives) (s : MemoryLedger) (request : ActionRequest)
    (payload : CanonValue) : MemoryLedger :=
  s.withObject request.payloadHash (canonBytes P payload) "payload"

/-- **The gate refuses a call**: the Act it asks for does not stand already, and either a
check fails or one of the writes is refused. -/
def GateRefuses (P : Primitives) (known : MemoryLedger → String → String → Cut → Bool)
    (s : MemoryLedger) (c : Submission) : Prop :=
  (∀ a, ¬CommitGate.Replays P s c a) ∧
    ∀ a, Admission P known s c a → s.objects.Refused (CommitGate.writes P c a)

/-- **A call leaves an object without its Act.** -/
inductive LeavesResidue (P : Primitives) (service : AuthorityService)
    (known : MemoryLedger → String → String → Cut → Bool) (s : MemoryLedger)
    (request : ActionRequest) (principal : Option RequestPrincipal) : Prop
  /-- The payload is new, and then the gate refuses. -/
  | payload {E : EvaluatedAction} {payload : CanonValue}
      (reaches : Reaches P service known s request principal E)
      (given : request.payload = some payload)
      (new : s.objects.get? request.payloadHash = none)
      (refused : GateRefuses P known (withPayload P s request payload) (submission request E))
  /-- The payload is none, or stands already; the checks of the gate pass, and one of its
  writes is refused after another has stored a new object. -/
  | objects {E : EvaluatedAction} {a : Act}
      (reaches : Reaches P service known s request principal E)
      (held : ∀ payload, request.payload = some payload →
        s.objects.get? request.payloadHash = some (canonBytes P payload, "payload"))
      (admission : Admission P known s (submission request E) a)
      (leaves : s.objects.Leaves (CommitGate.writes P (submission request E) a))

/-- The gate after the payload was stored, or needed no storing: the call raises when the
gate does, and leaves what the gate leaves. -/
theorem run_storeAndCommit {u : MemoryLedger}
    (hstore : (storePayload P request).run (MemoryLedger.handle known) s = (.ok (), u)) :
    ((∃ e, ((storeAndCommit P request E).run (MemoryLedger.handle known) s).1 = .error e) ↔
        ∃ e, ((CommitGate.commit P (submission request E)).run
          (MemoryLedger.handle known) u).1 = .error e) ∧
      ((storeAndCommit P request E).run (MemoryLedger.handle known) s).2
        = ((CommitGate.commit P (submission request E)).run (MemoryLedger.handle known) u).2 := by
  rw [storeAndCommit, run_bind_of_eq hstore, run_bind]
  rcases (CommitGate.commit P (submission request E)).run (MemoryLedger.handle known) u
    with ⟨e | a, v⟩
  · exact ⟨⟨fun _ => ⟨e, rfl⟩, fun _ => ⟨e, rfl⟩⟩, rfl⟩
  · dsimp only
    split
    · exact ⟨by simp, rfl⟩
    · exact ⟨by simp, rfl⟩

/-- What a call that raises leaves, when the payload needed no storing. -/
theorem raises_unchanged_iff_of_held
    (hstore : (storePayload P request).run (MemoryLedger.handle known) s = (.ok (), s))
    (hraises : ∃ e, ((storeAndCommit P request E).run (MemoryLedger.handle known) s).1 = .error e) :
    ((storeAndCommit P request E).run (MemoryLedger.handle known) s).2.objects = s.objects ↔
      ¬∃ a, Admission P known s (submission request E) a ∧
        s.objects.Leaves (CommitGate.writes P (submission request E) a) := by
  obtain ⟨hiff, hstate⟩ := run_storeAndCommit (E := E) hstore
  rw [hstate]
  exact CommitGate.unchanged_iff_of_raises (hiff.mp hraises)

/-- Storing a payload that stands already changes nothing. -/
theorem run_storePayload_of_held (hE : Evaluation P service known s request principal E)
    (held : ∀ payload, request.payload = some payload →
      s.objects.get? request.payloadHash = some (canonBytes P payload, "payload")) :
    (storePayload P request).run (MemoryLedger.handle known) s = (.ok (), s) := by
  rw [storePayload]
  rcases hpayload : request.payload with _ | payload
  · rfl
  · have hget := held payload hpayload
    have hclash : ¬s.objects.Clashes request.payloadHash (canonBytes P payload, "payload") :=
      Dict.not_clashes_iff.mpr (Or.inr hget)
    dsimp only
    rw [canonicalize_of_objectHash (hE.payloadGiven payload hpayload),
      run_bind_of_eq (run_ofExcept _), run_putObject_of_not_clashes hclash,
      MemoryLedger.withObject, Dict.set_eq_self hget]

/-- Storing a new payload. -/
theorem run_storePayload_of_new (hE : Evaluation P service known s request principal E)
    {payload : CanonValue} (hpayload : request.payload = some payload)
    (hnew : s.objects.get? request.payloadHash = none) :
    (storePayload P request).run (MemoryLedger.handle known) s
      = (.ok (), withPayload P s request payload) := by
  have hclash : ¬s.objects.Clashes request.payloadHash (canonBytes P payload, "payload") :=
    Dict.not_clashes_iff.mpr (Or.inl hnew)
  rw [storePayload, hpayload]
  dsimp only
  rw [canonicalize_of_objectHash (hE.payloadGiven payload hpayload),
    run_bind_of_eq (run_ofExcept _), run_putObject_of_not_clashes hclash, withPayload]

/-- Storing a payload whose hash stands for something else. -/
theorem run_storePayload_of_clashes (hE : Evaluation P service known s request principal E)
    {payload : CanonValue} (hpayload : request.payload = some payload)
    (hclash : s.objects.Clashes request.payloadHash (canonBytes P payload, "payload")) :
    (storePayload P request).run (MemoryLedger.handle known) s
      = (.error (valueError "CAS collision"), s) := by
  rw [storePayload, hpayload]
  dsimp only
  rw [canonicalize_of_objectHash (hE.payloadGiven payload hpayload),
    run_bind_of_eq (run_ofExcept _), run_putObject_of_clashes hclash]

/-- A ledger that got a new payload is not the one it was, whatever the gate does. -/
theorem objects_ne_of_new (hE : Evaluation P service known s request principal E)
    {payload : CanonValue} (hpayload : request.payload = some payload)
    (hnew : s.objects.get? request.payloadHash = none) :
    ((storeAndCommit P request E).run (MemoryLedger.handle known) s).2.objects ≠ s.objects := by
  intro heq
  have hstate := (run_storeAndCommit (E := E) (run_storePayload_of_new hE hpayload hnew)).2
  rw [hstate] at heq
  rcases hgate : (CommitGate.commit P (submission request E)).run (MemoryLedger.handle known)
    (withPayload P s request payload) with ⟨r, v⟩
  have hle : (withPayload P s request payload).objects ≤ v.objects := by
    rcases CommitGate.commit_cases hgate with
      ⟨_, -, hsame⟩ | ⟨_, _, -, -, -, rfl⟩ | ⟨_, -, -, hplaced⟩
    · exact hsame.objects
    · exact le_refl _
    · exact hplaced.objects
  have hget := hle _ _ (show (withPayload P s request payload).objects.get? request.payloadHash
    = some (canonBytes P payload, "payload") from Dict.get?_set_self)
  rw [hgate] at heq
  rw [heq, hnew] at hget
  cases hget

/-- Where the payload stands already, only an object of the gate can be left. -/
theorem Reaches.leavesResidue_iff_of_held (h : Reaches P service known s request principal E)
    (held : ∀ payload, request.payload = some payload →
      s.objects.get? request.payloadHash = some (canonBytes P payload, "payload")) :
    LeavesResidue P service known s request principal ↔
      ∃ a, Admission P known s (submission request E) a ∧
        s.objects.Leaves (CommitGate.writes P (submission request E) a) := by
  constructor
  · rintro (⟨-, given, new, -⟩ | ⟨reaches, -, admission, leaves⟩)
    · rw [held _ given] at new
      cases new
    · rw [h.unique reaches]
      exact ⟨_, admission, leaves⟩
  · rintro ⟨a, admission, leaves⟩
    exact .objects h held admission leaves

/-- Where the payload is new, it is left exactly when the gate refuses. -/
theorem Reaches.leavesResidue_iff_of_new (h : Reaches P service known s request principal E)
    {payload : CanonValue} (hpayload : request.payload = some payload)
    (hnew : s.objects.get? request.payloadHash = none) :
    LeavesResidue P service known s request principal ↔
      GateRefuses P known (withPayload P s request payload) (submission request E) := by
  constructor
  · rintro (⟨reaches, given, -, refused⟩ | ⟨-, held, -, -⟩)
    · rw [hpayload] at given
      cases given
      rw [h.unique reaches]
      exact refused
    · have hheld := held payload hpayload
      rw [hnew] at hheld
      cases hheld
  · exact fun refused => .payload h hpayload hnew refused

/-- Where the hash of the payload stands for something else, nothing is left. -/
theorem not_leavesResidue_of_clashes {payload : CanonValue}
    (hpayload : request.payload = some payload)
    (hclash : s.objects.Clashes request.payloadHash (canonBytes P payload, "payload")) :
    ¬LeavesResidue P service known s request principal := by
  rintro (⟨-, -, new, -⟩ | ⟨-, held, -, -⟩)
  · exact hclash.1 new
  · exact hclash.2 (held payload hpayload)

/-- Once a call has reached its first write: whether it raises and leaves something. -/
theorem raises_unchanged_iff_of_reaches (h : Reaches P service known s request principal E) :
    ((∃ e, ((storeAndCommit P request E).run (MemoryLedger.handle known) s).1 = .error e) →
        ((storeAndCommit P request E).run (MemoryLedger.handle known) s).2.objects = s.objects) ↔
      ¬LeavesResidue P service known s request principal := by
  have hE := h.evaluation
  by_cases held : ∀ payload, request.payload = some payload →
      s.objects.get? request.payloadHash = some (canonBytes P payload, "payload")
  · -- The gate is called on this very ledger.
    have hstore := run_storePayload_of_held hE held
    have hraises := (run_storeAndCommit (E := E) hstore).1
    rw [h.leavesResidue_iff_of_held held]
    constructor
    · rintro hunchanged ⟨a, hadm, hleaves⟩
      have hrefused : ∃ e, ((CommitGate.commit P (submission request E)).run
          (MemoryLedger.handle known) s).1 = .error e := by
        refine CommitGate.raises_iff.mpr ⟨fun b hreplay => ?_, fun b hb => ?_⟩
        · exact hreplay.not_admission hadm
        · rw [hb.unique hadm]
          exact hleaves.refused
      have hmoved := (raises_unchanged_iff_of_held hstore (hraises.mpr hrefused)).mp
        (hunchanged (hraises.mpr hrefused))
      exact hmoved ⟨a, hadm, hleaves⟩
    · exact fun hnone hr => (raises_unchanged_iff_of_held hstore hr).mpr hnone
  obtain ⟨payload, hpayload, hother⟩ : ∃ payload, request.payload = some payload ∧
      s.objects.get? request.payloadHash ≠ some (canonBytes P payload, "payload") := by
    simpa using held
  rcases hget : s.objects.get? request.payloadHash with _ | found
  · -- The payload is new: the ledger has changed, so it all depends on the gate.
    have hraises := (run_storeAndCommit (E := E) (run_storePayload_of_new hE hpayload hget)).1
    have hne := objects_ne_of_new hE hpayload hget
    rw [h.leavesResidue_iff_of_new hpayload hget, GateRefuses, ← CommitGate.raises_iff, ← hraises]
    exact ⟨fun hunchanged hr => hne (hunchanged hr), fun hnone hr => absurd hr hnone⟩
  · -- The payload is refused, and nothing was written.
    have hclash : s.objects.Clashes request.payloadHash (canonBytes P payload, "payload") :=
      ⟨by rw [hget]; exact Option.some_ne_none found, hother⟩
    refine iff_of_true (fun _ => ?_) (not_leavesResidue_of_clashes hpayload hclash)
    rw [storeAndCommit, run_bind, run_storePayload_of_clashes hE hpayload hclash]

/-- **When a call that raises leaves the ledger exactly as it was**: unless a new payload is
followed by a refusal of the gate, or a new object of the gate by a refusal of a later
one. -/
theorem raises_unchanged_iff (P : Primitives) (service : AuthorityService)
    (known : MemoryLedger → String → String → Cut → Bool) (s : MemoryLedger)
    (request : ActionRequest) (principal : Option RequestPrincipal) :
    ((∃ e, ((commit P service request principal).run (MemoryLedger.handle known) s).1 = .error e) →
        ((commit P service request principal).run (MemoryLedger.handle known) s).2.acts = s.acts ∧
        ((commit P service request principal).run (MemoryLedger.handle known) s).2.commandIndex
          = s.commandIndex ∧
        ((commit P service request principal).run (MemoryLedger.handle known) s).2.objects
          = s.objects) ↔
      ¬LeavesResidue P service known s request principal := by
  rcases hrun : (commit P service request principal).run (MemoryLedger.handle known) s with ⟨r, t⟩
  by_cases hreach : ∃ E, Reaches P service known s request principal E
  · obtain ⟨E, h⟩ := hreach
    rw [← raises_unchanged_iff_of_reaches h, ← run_commit_of_reaches h, hrun]
    refine imp_congr_right ?_
    rintro ⟨e, rfl⟩
    rcases commit_cases hrun with ⟨_, -, hsame⟩ | ⟨_, -, hok⟩
    · exact ⟨fun h => h.2.2, fun h => ⟨hsame.acts, hsame.commandIndex, h⟩⟩
    · rcases hok with ⟨_, herr, -⟩ | ⟨_, _, _, herr, -⟩ | ⟨_, herr, -⟩ <;> cases herr
  · have ht : t = s := run_commit_of_not_reaches (fun E h => hreach ⟨E, h⟩) hrun
    refine iff_of_true (fun _ => by rw [ht]; exact ⟨rfl, rfl, rfl⟩) ?_
    rintro (⟨reaches, -, -, -⟩ | ⟨reaches, -, -, -⟩) <;> exact hreach ⟨_, reaches⟩

/-- **A refused call leaves its payload behind**: a request for a review that names no
Command to review is evaluated, its payload is stored, and the gate refuses it. -/
theorem payload_left_behind :
    ((commit Sample.libraries Sample.authority Sample.emptyReview none).run
      (MemoryLedger.handle MemoryLedger.registered) Sample.office).1.toOption = none ∧
    Sample.office.objects.get? Sample.emptyReview.payloadHash = none ∧
    ((commit Sample.libraries Sample.authority Sample.emptyReview none).run
      (MemoryLedger.handle MemoryLedger.registered) Sample.office).2.objects.get?
        Sample.emptyReview.payloadHash ≠ none := by
  decide +kernel

end AuthorityService

end PowerfarmKernel
