import PowerfarmKernel.Service.Evaluation
import PowerfarmKernel.Service.Sample

/-!
# Who is said to have asked

Four keys of the Context an action is decided in are set by the service alone: who asked,
whose key signed, of what kind the one who asked is, and through which client. The caller
supplies the rest of the Context, and may supply a type for any key.

`PowerfarmKernel.AuthorityService.requesterFacts` says what the four keys should hold, as a
function of the principal, the bindings and the identities of the ledger, and the Identity
that signs. `PowerfarmKernel.AuthorityService.requester_unforgeable` says that an evaluation
that returns shows exactly these facts, under these types, so that nothing else of a request
can move them; that a request which supplies one of the keys is refused; and that an Act
records the hash of the Context they stand in.
-/

namespace PowerfarmKernel

open Prog LedgerM

/-! ### A Context and the facts it shows -/

/-- **A Context shows some facts**: each key has its fact for a value and itself for a
type. -/
def Context.Shows (context : Context) (facts : List (String × String)) : Prop :=
  ∀ key fact, (key, fact) ∈ facts →
    context.values.get? key = some (.str fact) ∧ context.types.get? key = some key

/-- Two facts of one key are the same fact. -/
def Functional (facts : List (String × String)) : Prop :=
  ∀ key fact fact', (key, fact) ∈ facts → (key, fact') ∈ facts → fact' = fact

namespace ActionRequest

variable {request : ActionRequest} {facts : List (String × String)} {context : Context}

/-- A request that supplies a key of the service has no Context. -/
theorem context_of_supplied (facts : List (String × String)) {key : String}
    (hderived : key ∈ derivedContextKeys) (hsupplied : key ∈ request.contextValues.keys) :
    ∃ e, request.context facts = .error e := by
  have hne : derivedContextKeys.filter (fun key => key ∈ request.contextValues.keys) ≠ [] :=
    List.ne_nil_of_mem (List.mem_filter.mpr ⟨hderived, decide_eq_true hsupplied⟩)
  rw [ActionRequest.context, if_pos hne]
  exact ⟨_, rfl⟩

/-- **The Context of a request shows the facts layered on top**, whatever the request says
of their keys. -/
theorem context_shows (hfacts : Functional facts) (h : request.context facts = .ok context) :
    context.Shows facts := by
  rw [ActionRequest.context] at h
  split at h
  · cases h
  · rw [Context.build] at h
    split at h
    · cases h
      intro key fact hmem
      constructor
      · refine Dict.get?_merge_of_mem (List.mem_map.mpr ⟨_, hmem, rfl⟩) fun v hv => ?_
        obtain ⟨⟨key', fact'⟩, hmem', heq⟩ := List.mem_map.mp hv
        cases heq
        rw [hfacts _ fact fact' hmem hmem']
      · refine Dict.get?_merge_of_mem (List.mem_map.mpr ⟨_, hmem, rfl⟩) fun v hv => ?_
        obtain ⟨e, -, heq⟩ := List.mem_map.mp hv
        cases heq
        rfl
    · cases h

end ActionRequest

namespace AuthorityService

variable {P : Primitives} {service : AuthorityService}
  {known : MemoryLedger → String → String → Cut → Bool} {s s' t : MemoryLedger}
  {request : ActionRequest} {principal : Option RequestPrincipal} {E : EvaluatedAction}
  {performer : Identity} {requester : Hash × String} {facts : List (String × String)}

/-! ### The facts -/

/-- Who asked: the Identity the principal is bound to, or whoever signs when nobody
authenticated. -/
def requesterOf (s : MemoryLedger) (principal : Option RequestPrincipal) (performer : Hash) :
    Option Hash :=
  match principal with
  | none => some performer
  | some principal => s.resolvePrincipal principal.issuer principal.subject

/-- **What the four keys should hold.** -/
def requesterFacts (s : MemoryLedger) (principal : Option RequestPrincipal) (performer : Hash) :
    Option (List (String × String)) := do
  let requester ← requesterOf s principal performer
  let identity ← s.identities.get? requester
  return [(requestedBy, requester), (performedBy, performer), (requesterKind, identity.kind),
    (oauthClient, (principal.map RequestPrincipal.clientId).getD performer)]

/-- The facts rest on the bindings and the identities of the ledger alone. -/
theorem requesterFacts_congr (hbindings : s'.principalBindings = s.principalBindings)
    (hidentities : s'.identities = s.identities) (performer : Hash) :
    requesterFacts s' principal performer = requesterFacts s principal performer := by
  rcases principal with _ | principal
  · simp only [requesterFacts, requesterOf, hidentities]
  · simp only [requesterFacts, requesterOf, MemoryLedger.resolvePrincipal, hbindings, hidentities]

/-- Each of the four keys has one fact. -/
theorem functional_derived (performer : Identity) (requester : Hash × String)
    (principal : Option RequestPrincipal) : Functional (derived performer requester principal) := by
  have hnodup : ((derived performer requester principal).map Prod.fst).Nodup := by
    change [requestedBy, performedBy, requesterKind, oauthClient].Nodup
    decide
  intro key fact fact' hfact hfact'
  exact (Prod.mk.inj (List.inj_on_of_nodup_map hnodup hfact' hfact rfl)).2

theorem exists_fact {signer : Hash} (h : requesterFacts s principal signer = some facts)
    {key : String} (hkey : key ∈ derivedContextKeys) : ∃ fact, (key, fact) ∈ facts := by
  have hkeys : facts.map Prod.fst = [requestedBy, performedBy, requesterKind, oauthClient] := by
    rw [requesterFacts, Option.bind_eq_bind, Option.bind_eq_some_iff] at h
    obtain ⟨requester, -, h⟩ := h
    rw [Option.bind_eq_bind, Option.bind_eq_some_iff] at h
    obtain ⟨identity, -, h⟩ := h
    cases h
    rfl
  have hmem : key ∈ facts.map Prod.fst := by
    rw [hkeys]
    revert key
    decide
  obtain ⟨⟨key', fact⟩, hfact, rfl⟩ := List.mem_map.mp hmem
  exact ⟨fact, hfact⟩

/-- **A requester that is resolved is the one the facts name**, of the kind the ledger has
for it; nobody need have authenticated only where the service allows that. -/
theorem run_resolveRequester_ok {allow : Bool} {cut : Cut}
    (hperformer : s.identities.get? performer.hash = some performer)
    (hrun : (IdentityService.resolveRequester allow performer principal cut).run
      (MemoryLedger.handle known) s = (.ok requester, t)) :
    requesterFacts s principal performer.hash = some (derived performer requester principal) ∧
      (principal = none → allow = true) := by
  rcases principal with _ | principal
  · -- Nobody authenticated: the performer asks.
    rw [IdentityService.resolveRequester] at hrun
    split at hrun
    · cases hrun
    · rename_i hallow
      cases hrun
      refine ⟨?_, fun _ => eq_true_of_ne_false hallow⟩
      simp [requesterFacts, requesterOf, derived, hperformer]
  · refine ⟨?_, fun h => by cases h⟩
    rw [IdentityService.resolveRequester, run_bind_of_eq MemoryLedger.run_resolvePrincipal] at hrun
    rcases hresolved : s.resolvePrincipal principal.issuer principal.subject with _ | resolved
    · rw [hresolved] at hrun
      cases hrun
    · rw [hresolved] at hrun
      dsimp only at hrun
      split at hrun
      · rename_i hself
        cases hrun
        simp [requesterFacts, requesterOf, derived, hresolved, hself, hperformer]
      · rw [run_bind_of_eq MemoryLedger.run_getIdentity] at hrun
        rcases hfound : s.identities.get? resolved with _ | found
        · rw [hfound] at hrun
          cases hrun
        · rw [hfound] at hrun
          cases hrun
          simp [requesterFacts, requesterOf, derived, hresolved, hfound]

/-- **An evaluation that returns shows the facts**, taken at the Identity its request
names. -/
theorem Evaluation.shows (h : Evaluation P service known s request principal E) :
    ∃ facts, requesterFacts s principal request.identityHash = some facts ∧
      E.context.Shows facts ∧ (principal = none → service.allowSignedWithoutOauth = true) := by
  obtain ⟨requester, hrequester, hcontext⟩ := h.context
  obtain ⟨rules, -, -, hdecision⟩ := h.rules
  have hsigner : E.identity.hash = E.command.identityHash := (authorize_ok hdecision).2.2.2
  have hnamed : E.command.identityHash = request.identityHash :=
    (ActionRequest.command_ok h.command).2.1
  have hperformer : s.identities.get? E.identity.hash = some E.identity := by
    rw [hsigner]
    exact h.identity
  obtain ⟨hfacts, hallow⟩ := run_resolveRequester_ok hperformer hrequester
  rw [hsigner, hnamed] at hfacts
  exact ⟨_, hfacts, ActionRequest.context_shows (functional_derived _ _ _) hcontext, hallow⟩

/-! ### A request that supplies a key of the service -/

/-- An evaluation of it raises. -/
theorem evaluate_of_supplied {key : String} (hderived : key ∈ derivedContextKeys)
    (hsupplied : key ∈ request.contextValues.keys) :
    ∃ e, (evaluate P service request principal).run (MemoryLedger.handle known) s
      = (.error e, s) := by
  rcases heval : (evaluate P service request principal).run (MemoryLedger.handle known) s
    with ⟨e | E, t⟩
  · -- Evaluating only reads, so the ledger an error is raised in is this one.
    have ht := (only_evaluate request principal).run_eq
      (fun _ ho s => MemoryLedger.handle_isRead ho s) heval
    exact ⟨e, by rw [ht]⟩
  · obtain ⟨requester, -, hcontext⟩ := (evaluate_ok heval).2.context
    obtain ⟨e, herr⟩ := ActionRequest.context_of_supplied
      (derived E.identity requester principal) hderived hsupplied
    rw [herr] at hcontext
    cases hcontext

/-! ### The Acts of the service -/

/-- **Every Act a call adds is the one it returns**, and records the hash of the Context the
call was evaluated in. -/
theorem commit_new {r : Except Raised (EvaluatedAction × Act)} {k : Hash} {a : Act}
    (hrun : (commit P service request principal).run (MemoryLedger.handle known) s = (r, t))
    (ha : t.acts.get? k = some a) (hnew : s.acts.get? k = none) :
    ∃ E, r = .ok (E, a) ∧
      (evaluate P service request principal).run (MemoryLedger.handle known) s = (.ok E, s) ∧
      E.context.hash P = .ok a.contextHash := by
  have hsame : ¬MemoryLedger.SameHistory s t := by
    intro hsame
    rw [hsame.acts, hnew] at ha
    cases ha
  -- A call that raises, or answers with an old Act, adds none; so the call committed.
  rcases r with e | x
  · rcases commit_cases hrun with ⟨-, -, hkept⟩ | ⟨E, -, hanswer⟩
    · exact absurd hkept hsame
    · rcases hanswer with ⟨_, herr, -⟩ | ⟨_, _, _, herr, -⟩ | ⟨_, herr, -⟩ <;> cases herr
  · obtain ⟨E, heval, -, hanswer⟩ := commit_ok hrun
    rcases hanswer with ⟨-, -, rfl⟩ | ⟨_, -, -, -, hkept⟩ | ⟨hE, hcommitted⟩
    · exact absurd (MemoryLedger.SameHistory.refl _) hsame
    · exact absurd hkept hsame
    · obtain ⟨u, hkept, hadm, hplaced, -⟩ := hcommitted.admitted
      rcases (hplaced.get?_iff hadm.fresh).mp ha with ⟨-, rfl⟩ | hold
      · exact ⟨E, by rw [← hE], heval, hadm.contextHash⟩
      · rw [hkept.acts, hnew] at hold
        cases hold

/-- **A caller cannot say who asked.** An evaluation that returns shows the four facts, and
so does that of any other request of the same Identity by the same principal, on any ledger
with the same bindings and identities: they are the same entries. A request that supplies
one of the keys is refused, and the ledger stays as it was. An Act that a call adds records
the hash of the Context of its evaluation. -/
theorem requester_unforgeable (P : Primitives) (service : AuthorityService)
    (known : MemoryLedger → String → String → Cut → Bool) (s : MemoryLedger)
    (request : ActionRequest) (principal : Option RequestPrincipal) :
    (∀ E t, (evaluate P service request principal).run (MemoryLedger.handle known) s = (.ok E, t) →
        (∃ facts, requesterFacts s principal request.identityHash = some facts ∧
          E.context.Shows facts ∧
          (principal = none → service.allowSignedWithoutOauth = true)) ∧
        ∀ (service' : AuthorityService) (s' : MemoryLedger) (request' : ActionRequest) E' t',
          s'.principalBindings = s.principalBindings → s'.identities = s.identities →
          request'.identityHash = request.identityHash →
          (evaluate P service' request' principal).run (MemoryLedger.handle known) s'
            = (.ok E', t') →
          ∀ key ∈ derivedContextKeys,
            E'.context.values.get? key = E.context.values.get? key ∧
              E'.context.types.get? key = E.context.types.get? key) ∧
      (∀ key ∈ derivedContextKeys, key ∈ request.contextValues.keys →
        (∃ e, (evaluate P service request principal).run (MemoryLedger.handle known) s
            = (.error e, s)) ∧
          ∃ e, (commit P service request principal).run (MemoryLedger.handle known) s
            = (.error e, s)) ∧
      ∀ r t k a, (commit P service request principal).run (MemoryLedger.handle known) s = (r, t) →
        t.acts.get? k = some a → s.acts.get? k = none →
        ∃ E, r = .ok (E, a) ∧
          (evaluate P service request principal).run (MemoryLedger.handle known) s = (.ok E, s) ∧
          E.context.hash P = .ok a.contextHash := by
  refine ⟨?_, ?_, fun r t k a hrun ha hnew => commit_new hrun ha hnew⟩
  · intro E t heval
    have hshows := (evaluate_ok heval).2.shows
    refine ⟨hshows, ?_⟩
    intro service' s' request' E' t' hbindings hidentities hsigner heval' key hkey
    obtain ⟨facts, hfacts, hshown, -⟩ := hshows
    obtain ⟨facts', hfacts', hshown', -⟩ := (evaluate_ok heval').2.shows
    -- Both evaluations show what the bindings and identities say, and those are the same.
    rw [hsigner, requesterFacts_congr hbindings hidentities, hfacts] at hfacts'
    cases hfacts'
    obtain ⟨fact, hfact⟩ := exists_fact hfacts hkey
    obtain ⟨hvalue, htype⟩ := hshown key fact hfact
    obtain ⟨hvalue', htype'⟩ := hshown' key fact hfact
    exact ⟨hvalue'.trans hvalue.symm, htype'.trans htype.symm⟩
  · intro key hderived hsupplied
    obtain ⟨e, heval⟩ : ∃ e, (evaluate P service request principal).run
        (MemoryLedger.handle known) s = (.error e, s) := evaluate_of_supplied hderived hsupplied
    refine ⟨⟨e, heval⟩, e, ?_⟩
    rw [commit, run_bind, heval]

/-- Someone authenticates, and their client presents the request. -/
def caller : RequestPrincipal := ⟨"https://idp", "alice", "client"⟩

/-- The ledger once they are bound to the root Identity. -/
def bound : MemoryLedger :=
  Sample.office.linkPrincipal caller.issuer caller.subject Sample.root.hash

/-- The Context of what they ask for names them, their client and their kind. -/
theorem requester_unforgeable_alice : ∃ E, (evaluate Sample.libraries Sample.authority
      Sample.createThing (some caller)).run (MemoryLedger.handle MemoryLedger.registered) bound
      = (.ok E, bound) ∧
    E.context.Shows [(requestedBy, Sample.root.hash), (performedBy, Sample.root.hash),
      (requesterKind, "human"), (oauthClient, "client")] := by
  have hok : ((evaluate Sample.libraries Sample.authority Sample.createThing (some caller)).run
      (MemoryLedger.handle MemoryLedger.registered) bound).1.isOk = true := by
    decide +kernel
  rcases heval : (evaluate Sample.libraries Sample.authority Sample.createThing (some caller)).run
    (MemoryLedger.handle MemoryLedger.registered) bound with ⟨e | E, t⟩
  · rw [heval] at hok
    cases hok
  · obtain ⟨facts, hfacts, hshown, -⟩ := ((requester_unforgeable Sample.libraries Sample.authority
      MemoryLedger.registered bound Sample.createThing (some caller)).1 E t heval).1
    have hnamed : requesterFacts bound (some caller) Sample.createThing.identityHash
        = some [(requestedBy, Sample.root.hash), (performedBy, Sample.root.hash),
          (requesterKind, "human"), (oauthClient, "client")] := by
      decide +kernel
    rw [hnamed] at hfacts
    cases hfacts
    rw [(evaluate_ok heval).1]
    exact ⟨E, rfl, hshown⟩

end AuthorityService

end PowerfarmKernel
