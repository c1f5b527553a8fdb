import PowerfarmKernel.Kernel.Admission
import PowerfarmKernel.Service.Authority

/-!
# What the authority service does to the in-memory ledger

The counterpart, for `AuthorityService`, of what
`PowerfarmKernel.CommitGate.commit_cases` says of the gate.

* `PowerfarmKernel.AuthorityService.Evaluation` lists what has been checked when an
  evaluation returns; an evaluation changes nothing
  (`PowerfarmKernel.AuthorityService.evaluate_ok`).
* `PowerfarmKernel.AuthorityService.commit_cases`: a call of `commit` raises, with
  objects added at most; or answers with the settled consequence of its Command, and
  changes nothing; or answers with an Act that already held its place; or admits a new
  Act, everything the service and the gate check having held.
-/

namespace PowerfarmKernel

open Prog LedgerM

namespace AuthorityService

variable {P : Primitives} {service : AuthorityService}
  {known : MemoryLedger → String → String → Cut → Bool} {s t : MemoryLedger}
  {request : ActionRequest} {principal : Option RequestPrincipal} {E E' : EvaluatedAction} {a : Act}

/-! ### Evaluation -/

/-- **Everything an evaluation has checked of the ledger when it returns.** -/
structure Evaluation (P : Primitives) (service : AuthorityService)
    (known : MemoryLedger → String → String → Cut → Bool) (s : MemoryLedger)
    (request : ActionRequest) (principal : Option RequestPrincipal) (E : EvaluatedAction) :
    Prop where
  command : request.command = .ok E.command
  actType : E.actType = request.actType
  authChain : E.authChain = request.authChain
  payload : E.payload = request.payload
  cut : E.decision.cut = request.historyCut.getD s.historyCut
  registryCut : E.decision.registryCut = request.registryCut.getD E.decision.cut
  closed : s.isClosedCut E.decision.cut = true
  registryClosed : s.isClosedCut E.decision.registryCut = true
  registry_le : E.decision.registryCut ⊆ E.decision.cut
  identity : s.identities.get? E.command.identityHash = some E.identity
  verified : E.command.verifies P E.identity = true
  context : ∃ requester,
    (IdentityService.resolveRequester service.allowSignedWithoutOauth E.identity principal
      E.decision.cut).run (MemoryLedger.handle known) s = (.ok requester, s) ∧
    request.context (derived E.identity requester principal) = .ok E.context
  payloadGiven : ∀ payload, request.payload = some payload →
    objectHash P "payload" payload = .ok request.payloadHash
  payloadStored : request.payload = none → (s.objects.get? request.payloadHash).isSome
  commandTyped : known s "command_type" request.commandType E.decision.registryCut = true
  actTyped : known s "act_type" request.actType E.decision.registryCut = true
  keysKnown : ∀ key ∈ E.context.values.keys,
    known s "context_type" key E.decision.registryCut = true
  rules : ∃ rules,
    (service.rules.resolve E.command E.context E.decision.cut E.decision.registryCut).run
      (MemoryLedger.handle known) s = (.ok rules, s) ∧
    (∀ rule ∈ rules, known s "rule" rule.hash E.decision.registryCut = true) ∧
    authorize E.identity E.command E.context E.decision.cut E.decision.registryCut rules
      = .ok E.decision

theorem run_performer_ok {command : Command} {cut : Cut} {identity : Identity}
    (hrun : (performer command cut).run (MemoryLedger.handle known) s = (.ok identity, t)) :
    t = s ∧ s.identities.get? command.identityHash = some identity := by
  rw [performer, run_bind_of_eq MemoryLedger.run_getIdentity] at hrun
  rcases hfound : s.identities.get? command.identityHash with _ | found
  · rw [hfound] at hrun
    cases hrun
  · rw [hfound] at hrun
    cases hrun
    exact ⟨rfl, rfl⟩

theorem run_validatePayload_ok {x : Unit}
    (hrun : (validatePayload P request).run (MemoryLedger.handle known) s = (.ok x, t)) :
    t = s ∧ (∀ payload, request.payload = some payload →
      objectHash P "payload" payload = .ok request.payloadHash) ∧
      (request.payload = none → (s.objects.get? request.payloadHash).isSome) := by
  rw [validatePayload] at hrun
  rcases hpayload : request.payload with _ | payload
  · rw [hpayload] at hrun
    dsimp only at hrun
    rw [run_bind_of_eq MemoryLedger.run_hasObject] at hrun
    obtain ⟨hstored, ht⟩ := run_raiseWhen_ok.mp hrun
    refine ⟨ht, ?_, fun _ => eq_true_of_ne_false hstored⟩
    intro payload h
    cases h
  · rw [hpayload] at hrun
    dsimp only at hrun
    obtain ⟨actual, hactual, hrun⟩ := run_ofExcept_bind_ok.mp hrun
    obtain ⟨hsame, ht⟩ := run_raiseWhen_ok.mp hrun
    refine ⟨ht, ?_, fun h => absurd h (Option.some_ne_none payload)⟩
    intro payload' h
    cases h
    rw [hactual, not_not.mp hsame]

theorem run_validateRegistry_ok {context : Context} {cut : Cut} {x : Unit}
    (hrun : (validateRegistry request context cut).run (MemoryLedger.handle known) s
      = (.ok x, t)) :
    t = s ∧ known s "command_type" request.commandType cut = true ∧
      known s "act_type" request.actType cut = true ∧
      ∀ key ∈ context.values.keys, known s "context_type" key cut = true := by
  rw [validateRegistry, run_bind_of_eq MemoryLedger.run_registered] at hrun
  obtain ⟨hcommand, hrun⟩ := run_raiseWhen_bind_ok.mp hrun
  rw [run_bind_of_eq MemoryLedger.run_registered] at hrun
  obtain ⟨hact, hrun⟩ := run_raiseWhen_bind_ok.mp hrun
  obtain ⟨ht, hkeys⟩ := run_forM_ok
    (p := fun key => known s "context_type" key cut = true) (fun key x u hkey => by
      rw [requireContextType, run_bind_of_eq MemoryLedger.run_registered] at hkey
      obtain ⟨hknown, hu⟩ := run_raiseWhen_ok.mp hkey
      exact ⟨hu, eq_true_of_ne_false hknown⟩) hrun
  exact ⟨ht, eq_true_of_ne_false hcommand, eq_true_of_ne_false hact, hkeys⟩

/-- A read-only part of a program that returns, and the rest. -/
theorem run_read_bind_ok {α β : Type} {p : LedgerM α} {f : α → LedgerM β} {b : β}
    (hp : p.Only LedgerOp.IsRead)
    (hrun : (p >>= f).run (MemoryLedger.handle known) s = (.ok b, t)) :
    ∃ a, p.run (MemoryLedger.handle known) s = (.ok a, s) ∧
      (f a).run (MemoryLedger.handle known) s = (.ok b, t) := by
  obtain ⟨a, u, hfirst, hrest⟩ := run_bind_ok.mp hrun
  have hu : u = s := hp.run_eq (fun _ ho s => MemoryLedger.handle_isRead ho s) hfirst
  rw [hu] at hfirst hrest
  exact ⟨a, hfirst, hrest⟩

/-- **When an evaluation returns**, everything it checks has held, and the ledger is as
it was. -/
theorem evaluate_ok
    (hrun : (evaluate P service request principal).run (MemoryLedger.handle known) s
      = (.ok E, t)) :
    t = s ∧ Evaluation P service known s request principal E := by
  rw [evaluate] at hrun
  -- Every part reads only, so each check was made in this ledger.
  obtain ⟨command, hcommand, hrun⟩ := run_ofExcept_bind_ok.mp hrun
  rw [run_bind_of_eq MemoryLedger.run_historyCut, evaluateAt,
    run_bind_of_eq MemoryLedger.run_isClosedCut] at hrun
  obtain ⟨hclosed, hrun⟩ := run_raiseWhen_bind_ok.mp hrun
  rw [run_bind_of_eq MemoryLedger.run_isClosedCut] at hrun
  obtain ⟨hregistry, hrun⟩ := run_raiseWhen_bind_ok.mp hrun
  obtain ⟨identity, hidentity, hrun⟩ := run_read_bind_ok (only_performer _ _) hrun
  obtain ⟨hverified, hrun⟩ := run_raiseWhen_bind_ok.mp hrun
  obtain ⟨requester, hrequester, hrun⟩ :=
    run_read_bind_ok (IdentityService.only_resolveRequester _ _ _ _) hrun
  obtain ⟨context, hcontext, hrun⟩ := run_ofExcept_bind_ok.mp hrun
  obtain ⟨_, hpayload, hrun⟩ := run_read_bind_ok (only_validatePayload _) hrun
  obtain ⟨_, hnames, hrun⟩ := run_read_bind_ok (only_validateRegistry _ _ _) hrun
  obtain ⟨rules, hresolve, hrun⟩ := run_read_bind_ok (service.rules.reads _ _ _ _) hrun
  obtain ⟨-, hrun⟩ := run_raiseWhen_bind_ok.mp hrun
  rw [run_bind_of_eq (run_anyM_not (fun _ => MemoryLedger.run_registered) _)] at hrun
  obtain ⟨hstray, hrun⟩ := run_raiseWhen_bind_ok.mp hrun
  obtain ⟨decision, hdecision, hrun⟩ := run_ofExcept_bind_ok.mp hrun
  cases hrun
  rw [not_or, not_not] at hregistry
  obtain ⟨hcut, hregistryCut, -, -⟩ := authorize_ok hdecision
  obtain ⟨-, hgiven, hstored⟩ := run_validatePayload_ok hpayload
  obtain ⟨-, hcommandTyped, hactTyped, hkeys⟩ := run_validateRegistry_ok hnames
  refine ⟨rfl, {
    command := hcommand
    actType := rfl
    authChain := rfl
    payload := rfl
    cut := hcut
    registryCut := by rw [hregistryCut, hcut]
    closed := by rw [hcut]; exact eq_true_of_ne_false hclosed
    registryClosed := by rw [hregistryCut]; exact eq_true_of_ne_false hregistry.1
    registry_le := by rw [hregistryCut, hcut]; exact hregistry.2
    identity := (run_performer_ok hidentity).2
    verified := eq_true_of_ne_false hverified
    context := ⟨requester, by rw [hcut]; exact hrequester, hcontext⟩
    payloadGiven := hgiven
    payloadStored := hstored
    commandTyped := by rw [hregistryCut]; exact hcommandTyped
    actTyped := by rw [hregistryCut]; exact hactTyped
    keysKnown := by rw [hregistryCut]; exact hkeys
    rules := ⟨rules, ?_, ?_, ?_⟩ }⟩
  · rw [hcut, hregistryCut]
    exact hresolve
  · rw [hregistryCut]
    exact all_of_not_any_not hstray
  · rw [hcut, hregistryCut]
    exact hdecision

/-! ### Replays -/

/-- **The replay of a settled consequence**: the Command owns a consequential Act, the
first of them agrees with the evaluated action, and the answer is that Act. -/
structure Settled (P : Primitives) (s : MemoryLedger) (E : EvaluatedAction) (a : Act) :
    Prop where
  owned : ∃ commandHash acts, E.command.hash P = .ok commandHash ∧
    s.getActsForCommand commandHash = .ok acts ∧
    acts.find? (fun act => act.actType ∉ lifecycleActTypes) = some a
  actType : a.actType = E.actType
  identityHash : a.identityHash = E.identity.hash
  parents : a.parents = E.command.parents
  contextHash : E.context.hash P = .ok a.contextHash
  payloadHash : a.payloadHash = E.command.payloadHash

/-- Looking for the settled consequence, when it does not raise: there is none, or it is
replayed. -/
theorem run_settledConsequence_ok {found : Option (EvaluatedAction × Act)}
    (hrun : (settledConsequence P E).run (MemoryLedger.handle known) s = (.ok found, t)) :
    t = s ∧ ∃ commandHash acts, E.command.hash P = .ok commandHash ∧
      s.getActsForCommand commandHash = .ok acts ∧
      ((found = none ∧ ∀ b ∈ acts, b.actType ∈ lifecycleActTypes) ∨
        ∃ a, found = some (replay E .allow a, a) ∧ Settled P s E a) := by
  rw [settledConsequence] at hrun
  obtain ⟨commandHash, hhash, hrun⟩ := run_ofExcept_bind_ok.mp hrun
  obtain ⟨acts, u, hacts, hrun⟩ := run_bind_ok.mp hrun
  rw [MemoryLedger.run_getActsForCommand, Prod.mk.injEq] at hacts
  obtain ⟨hacts, rfl⟩ := hacts
  rcases hfind : acts.find? (fun act => act.actType ∉ lifecycleActTypes) with _ | act
  · rw [hfind] at hrun
    cases hrun
    refine ⟨rfl, commandHash, acts, hhash, hacts, Or.inl ⟨rfl, fun b hb => ?_⟩⟩
    have hnone := List.find?_eq_none.mp hfind b hb
    rwa [decide_eq_true_eq, not_not] at hnone
  · rw [hfind] at hrun
    dsimp only at hrun
    obtain ⟨hsame, hrun⟩ := run_raiseWhen_bind_ok.mp hrun
    obtain ⟨contextHash, hcontext, hrun⟩ := run_ofExcept_bind_ok.mp hrun
    obtain ⟨hsame', hrun⟩ := run_raiseWhen_bind_ok.mp hrun
    cases hrun
    rw [not_or, not_or, not_not, not_not, not_not] at hsame
    rw [not_or, not_not, not_not] at hsame'
    exact ⟨rfl, commandHash, acts, hhash, hacts, Or.inr ⟨act, rfl, {
      owned := ⟨commandHash, acts, hhash, hacts, hfind⟩
      actType := hsame.1
      identityHash := hsame.2.1
      parents := hsame.2.2
      contextHash := by rw [hcontext, hsame'.1]
      payloadHash := hsame'.2 }⟩⟩

/-! ### One call of `commit` -/

/-- **The ledger after an admission by the service**: what the gate did, from a ledger
to which the payload of the request was added. -/
structure Committed (P : Primitives) (service : AuthorityService)
    (known : MemoryLedger → String → String → Cut → Bool) (s t : MemoryLedger)
    (request : ActionRequest) (principal : Option RequestPrincipal) (E : EvaluatedAction)
    (a : Act) : Prop where
  evaluation : Evaluation P service known s request principal E
  cut : E.decision.cut = s.historyCut
  unsettled : request.actType ∉ lifecycleActTypes → ∃ commandHash acts,
    E.command.hash P = .ok commandHash ∧ s.getActsForCommand commandHash = .ok acts ∧
    ∀ b ∈ acts, b.actType ∈ lifecycleActTypes
  admitted : ∃ u, MemoryLedger.SameHistory s u ∧
    Admission P known u (submission request E) a ∧ Placed P u t (submission request E) a ∧
    ∀ payload, request.payload = some payload → ∃ canon,
      canonicalize P payload = .ok canon ∧
        u.objects.get? request.payloadHash = some (canon, "payload")

/-- Storing the payload adds objects at most, also when it raises. -/
theorem sameHistory_storePayload {r : Except Raised Unit}
    (hrun : (storePayload P request).run (MemoryLedger.handle known) s = (r, t)) :
    MemoryLedger.SameHistory s t := by
  have hstep : ∀ o, LedgerOp.IsPlain o → ∀ s : MemoryLedger,
      MemoryLedger.SameHistory s (MemoryLedger.handle known o s).2 :=
    fun _ ho s => MemoryLedger.handle_isPlain ho s
  have hsame := (only_storePayload (P := P) request).run_rel MemoryLedger.SameHistory.refl
    (fun h h' => h.trans h') hstep s
  rwa [hrun] at hsame

/-- Storing the payload, when it does not raise. -/
theorem run_storePayload_ok {x : Unit}
    (hrun : (storePayload P request).run (MemoryLedger.handle known) s = (.ok x, t)) :
    MemoryLedger.SameHistory s t ∧ ∀ payload, request.payload = some payload →
      ∃ canon, canonicalize P payload = .ok canon ∧
        t.objects.get? request.payloadHash = some (canon, "payload") := by
  refine ⟨sameHistory_storePayload hrun, ?_⟩
  intro payload hpayload
  rw [storePayload, hpayload] at hrun
  obtain ⟨canon, hcanon, hrun⟩ := run_ofExcept_bind_ok.mp hrun
  obtain ⟨rfl, -⟩ := run_putObject_ok hrun
  exact ⟨canon, hcanon, Dict.get?_set_self⟩

/-- The end of `commit`: it raises, with objects added at most; or the gate answers with
an Act that already held its place; or the gate admits a new Act. -/
theorem run_commitEvaluated_cases {r : Except Raised (EvaluatedAction × Act)}
    (hrun : (commitEvaluated P request E).run (MemoryLedger.handle known) s = (r, t)) :
    (∃ e, r = .error e ∧ MemoryLedger.SameHistory s t) ∨
      E.decision.cut = s.historyCut ∧
        ((∃ E' a k, r = .ok (E', a) ∧ (submission request E).occurrence P = .ok k ∧
            s.acts.get? k = some a ∧ MemoryLedger.SameHistory s t) ∨
          ∃ a u, r = .ok (E, a) ∧ MemoryLedger.SameHistory s u ∧
            Admission P known u (submission request E) a ∧
            Placed P u t (submission request E) a ∧
            ∀ payload, request.payload = some payload → ∃ canon,
              canonicalize P payload = .ok canon ∧
                u.objects.get? request.payloadHash = some (canon, "payload")) := by
  rw [commitEvaluated, run_bind_of_eq MemoryLedger.run_historyCut, run_bind, run_raiseWhen] at hrun
  by_cases hcut : E.decision.cut ≠ s.historyCut
  · rw [if_pos hcut] at hrun
    cases hrun
    exact Or.inl ⟨_, rfl, MemoryLedger.SameHistory.refl s⟩
  rw [if_neg hcut] at hrun
  dsimp only at hrun
  -- Storing the payload may raise, and what it has stored stays.
  rcases hstore : (storePayload P request).run (MemoryLedger.handle known) s with ⟨e | x, u⟩
  · rw [run_bind, hstore] at hrun
    cases hrun
    exact Or.inl ⟨e, rfl, sameHistory_storePayload hstore⟩
  obtain ⟨hsame, hpayload⟩ := run_storePayload_ok hstore
  rw [run_bind_of_eq hstore] at hrun
  rcases hgate : (CommitGate.commit P (submission request E)).run (MemoryLedger.handle known) u
    with ⟨r', v⟩
  rw [run_bind, hgate] at hrun
  -- What the gate did, from the ledger to which the payload was added.
  rcases CommitGate.commit_cases hgate with
    ⟨e, rfl, hkept⟩ | ⟨a, k, rfl, hocc, hget, rfl⟩ | ⟨a, rfl, hadm, hplaced⟩
  · cases hrun
    exact Or.inl ⟨e, rfl, hsame.trans hkept⟩
  · dsimp only at hrun
    rw [hsame.acts] at hget
    refine Or.inr ⟨not_not.mp hcut, Or.inl ?_⟩
    split at hrun
    · cases hrun
      exact ⟨_, a, k, rfl, hocc, hget, hsame⟩
    · cases hrun
      exact ⟨_, a, k, rfl, hocc, hget, hsame⟩
  · dsimp only at hrun
    -- A new Act is not in the cut read before, so it is not taken for a replay.
    have hfresh : a.hash ∉ s.historyCut := by
      intro hmem
      obtain ⟨b, hb⟩ := MemoryStore.mem_historyCut.mp hmem
      have hnone := hadm.fresh
      rw [hsame.acts, hb] at hnone
      cases hnone
    rw [if_neg hfresh] at hrun
    cases hrun
    exact Or.inr ⟨not_not.mp hcut, Or.inr ⟨a, u, rfl, hsame, hadm, hplaced, hpayload⟩⟩

/-- The end of `commit`, after an evaluation that no settled consequence answers. -/
theorem run_commitEvaluated_of_evaluation {r : Except Raised (EvaluatedAction × Act)}
    (hE : Evaluation P service known s request principal E)
    (hunsettled : request.actType ∉ lifecycleActTypes → ∃ commandHash acts,
      E.command.hash P = .ok commandHash ∧ s.getActsForCommand commandHash = .ok acts ∧
      ∀ b ∈ acts, b.actType ∈ lifecycleActTypes)
    (hrun : (commitEvaluated P request E).run (MemoryLedger.handle known) s = (r, t)) :
    (∃ e, r = .error e ∧ MemoryLedger.SameHistory s t) ∨
      (∃ E' a k, r = .ok (E', a) ∧ E.decision.cut = s.historyCut ∧
        (submission request E).occurrence P = .ok k ∧ s.acts.get? k = some a ∧
        MemoryLedger.SameHistory s t) ∨
      ∃ a, r = .ok (E, a) ∧ Committed P service known s t request principal E a := by
  rcases run_commitEvaluated_cases hrun with
    hraised | ⟨hcut, hreplay | ⟨a, u, rfl, hsame, hadm, hplaced, hpayload⟩⟩
  · exact Or.inl hraised
  · obtain ⟨E', a, k, hr, hocc, hget, hsame⟩ := hreplay
    exact Or.inr (Or.inl ⟨E', a, k, hr, hcut, hocc, hget, hsame⟩)
  · exact Or.inr (Or.inr ⟨a, rfl, hE, hcut, hunsettled, u, hsame, hadm, hplaced, hpayload⟩)

/-- **What `commit` does before it writes**: it raises, and the ledger is as it was; or
it replays the settled consequence; or there is none and the evaluated action is
committed. -/
theorem run_commit_cases {r : Except Raised (EvaluatedAction × Act)}
    (hrun : (commit P service request principal).run (MemoryLedger.handle known) s = (r, t)) :
    (∃ e, r = .error e ∧ t = s) ∨
      ∃ E, (evaluate P service request principal).run (MemoryLedger.handle known) s = (.ok E, s) ∧
        E.decision.outcome ∈ permittedOutcomes E.actType ∧
        ((∃ a, r = .ok (replay E .allow a, a) ∧ request.actType ∉ lifecycleActTypes ∧
            Settled P s E a ∧ t = s) ∨
          ((request.actType ∉ lifecycleActTypes → ∃ commandHash acts,
              E.command.hash P = .ok commandHash ∧ s.getActsForCommand commandHash = .ok acts ∧
              ∀ b ∈ acts, b.actType ∈ lifecycleActTypes) ∧
            (commitEvaluated P request E).run (MemoryLedger.handle known) s = (r, t))) := by
  have reads : ∀ {α : Type} {p : LedgerM α} {x : Except Raised α} {u : MemoryLedger},
      p.Only LedgerOp.IsRead → p.run (MemoryLedger.handle known) s = (x, u) → u = s :=
    fun hp h => hp.run_eq (fun _ ho s => MemoryLedger.handle_isRead ho s) h
  rcases heval : (evaluate P service request principal).run (MemoryLedger.handle known) s
    with ⟨e | E, u⟩
  · rw [commit, run_bind, heval] at hrun
    cases hrun
    exact Or.inl ⟨e, rfl, reads (only_evaluate request principal) heval⟩
  -- The evaluation returned, and the ledger is still the one it started from.
  obtain rfl := (reads (only_evaluate request principal) heval).symm
  rw [commit, run_bind_of_eq heval, admitEvaluated, run_bind, run_raiseWhen] at hrun
  by_cases hpermitted : E.decision.outcome ∉ permittedOutcomes E.actType
  · rw [if_pos hpermitted] at hrun
    cases hrun
    exact Or.inl ⟨_, rfl, rfl⟩
  rw [if_neg hpermitted] at hrun
  dsimp only at hrun
  rw [(evaluate_ok heval).2.actType] at hrun
  by_cases hcons : request.actType ∉ lifecycleActTypes
  · rw [if_pos hcons] at hrun
    rcases hsettled : (settledConsequence P E).run (MemoryLedger.handle known) s
      with ⟨e | found, v⟩
    · rw [run_bind, hsettled] at hrun
      cases hrun
      exact Or.inl ⟨e, rfl, reads (only_settledConsequence E) hsettled⟩
    rw [run_bind_of_eq hsettled] at hrun
    obtain ⟨hv, commandHash, acts, hhash, hacts, ⟨rfl, hnone⟩ | ⟨a, rfl, ha⟩⟩ :=
      run_settledConsequence_ok hsettled
    · rw [hv] at hrun
      exact Or.inr ⟨E, rfl, not_not.mp hpermitted,
        Or.inr ⟨fun _ => ⟨commandHash, acts, hhash, hacts, hnone⟩, hrun⟩⟩
    · cases hrun
      exact Or.inr ⟨E, rfl, not_not.mp hpermitted, Or.inl ⟨a, rfl, hcons, ha, hv⟩⟩
  · -- A stage is not looked for among the settled consequences.
    rw [if_neg hcons] at hrun
    exact Or.inr ⟨E, rfl, not_not.mp hpermitted, Or.inr ⟨fun h => absurd h hcons, hrun⟩⟩

/-- **One call of `AuthorityService.commit`.** -/
theorem commit_cases {r : Except Raised (EvaluatedAction × Act)}
    (hrun : (commit P service request principal).run (MemoryLedger.handle known) s = (r, t)) :
    (∃ e, r = .error e ∧ MemoryLedger.SameHistory s t) ∨
      ∃ E, Evaluation P service known s request principal E ∧
        ((∃ a, r = .ok (replay E .allow a, a) ∧ request.actType ∉ lifecycleActTypes ∧
            Settled P s E a ∧ t = s) ∨
          (∃ E' a k, r = .ok (E', a) ∧ E.decision.cut = s.historyCut ∧
            (submission request E).occurrence P = .ok k ∧ s.acts.get? k = some a ∧
            MemoryLedger.SameHistory s t) ∨
          ∃ a, r = .ok (E, a) ∧ Committed P service known s t request principal E a) := by
  rcases run_commit_cases hrun with ⟨e, hr, rfl⟩ | ⟨E, heval, -, hanswer⟩
  · exact Or.inl ⟨e, hr, MemoryLedger.SameHistory.refl t⟩
  have hE := (evaluate_ok heval).2
  rcases hanswer with hreplay | ⟨hunsettled, hrun⟩
  · exact Or.inr ⟨E, hE, Or.inl hreplay⟩
  · exact (run_commitEvaluated_of_evaluation hE hunsettled hrun).imp id
      fun hanswer => ⟨E, hE, Or.inr hanswer⟩

/-- **When `commit` returns**: its evaluation in this ledger was permitted, and the
answer is the settled consequence, or an Act that held its place, or a new one. -/
theorem commit_ok {x : EvaluatedAction × Act}
    (hrun : (commit P service request principal).run (MemoryLedger.handle known) s = (.ok x, t)) :
    ∃ E, (evaluate P service request principal).run (MemoryLedger.handle known) s = (.ok E, s) ∧
      E.decision.outcome ∈ permittedOutcomes E.actType ∧
      ((request.actType ∉ lifecycleActTypes ∧ Settled P s E x.2 ∧ t = s) ∨
        (∃ k, E.decision.cut = s.historyCut ∧ (submission request E).occurrence P = .ok k ∧
          s.acts.get? k = some x.2 ∧ MemoryLedger.SameHistory s t) ∨
        x.1 = E ∧ Committed P service known s t request principal E x.2) := by
  rcases run_commit_cases hrun with ⟨e, herr, -⟩ | ⟨E, heval, hpermitted, hanswer⟩
  · cases herr
  refine ⟨E, heval, hpermitted, ?_⟩
  rcases hanswer with ⟨a, hr, hcons, hsettled, ht⟩ | ⟨hunsettled, hrun⟩
  · cases hr
    exact Or.inl ⟨hcons, hsettled, ht⟩
  rcases run_commitEvaluated_of_evaluation (evaluate_ok heval).2 hunsettled hrun with
    ⟨e, herr, -⟩ | ⟨E', a, k, hr, hcut, hocc, hget, hsame⟩ | ⟨a, hr, hcommitted⟩
  · cases herr
  · cases hr
    exact Or.inr (Or.inl ⟨k, hcut, hocc, hget, hsame⟩)
  · cases hr
    exact Or.inr (Or.inr ⟨rfl, hcommitted⟩)

end AuthorityService

end PowerfarmKernel
