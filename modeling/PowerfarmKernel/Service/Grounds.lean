import PowerfarmKernel.Service.Atomicity
import PowerfarmKernel.Service.Doors

/-!
# What an Act stands on, whoever else is at work

`AuthorityService.commit` reads the ledger many times before it writes, and other clients
write in between. The answers it gets about Acts and objects may be old when it uses them;
the registry, the identities and their keys, and – as long as no client binds principals –
the bindings are never old (`PowerfarmKernel.Postgres.Anchored`).

So every Act that was admitted in the meantime stands on an evaluation that the database at
the very start would have supported (`PowerfarmKernel.Grounds`): the signature, the
requester, the registrations and the Rules are those of that database. This is
`PowerfarmKernel.Clients.admissions_grounded`, for clients at every door that binds nobody.
-/

namespace PowerfarmKernel

open Prog Interleaving Runs LedgerM

/-! ### What is never old -/

/-- A method whose answer no client can change that binds nobody. -/
def LedgerOp.IsAnchored : LedgerOp → Prop
  | .registered _ _ _ => True
  | .getIdentity _ _ => True
  | .registryEntries _ _ => True
  | .resolvePrincipal _ _ => True
  | _ => False

theorem LedgerOp.IsAnchored.isRead {o : LedgerOp} (h : o.IsAnchored) : o.IsRead := by
  cases o <;> first | exact h.elim | trivial

namespace Postgres

/-- **What clients that bind nobody can do to a database.** -/
structure Anchored (db s : Postgres) : Prop extends Steady db s where
  principalBindings : s.principalBindings = db.principalBindings

namespace Anchored

variable {P : Primitives} {db s : Postgres}

theorem refl (db : Postgres) : Anchored db db := ⟨Steady.refl db, rfl⟩

theorem handle (h : Anchored db s) {o : LedgerOp} (ho : o.KeepsBindings) :
    Anchored db (Postgres.handle P o s).2 :=
  ⟨h.toSteady.trans (steady_handle P o s),
    (handle_principalBindings ho s).trans h.principalBindings⟩

/-- **Their answers are those of the database they started from.** -/
theorem handle_eq (h : Anchored db s) (hdb : db.Defined) {o : LedgerOp} (ho : o.IsAnchored) :
    Postgres.handle P o s = ((Postgres.handle P o db).1, s) := by
  cases o with
  | registered kind name cut => rw [Postgres.handle, Postgres.handle, registered, registered,
      h.registry]
  | getIdentity x cut =>
    rw [Postgres.handle, Postgres.handle, getIdentity, getIdentity, identityKeysAtCut,
      identityKeysAtCut, h.identities, h.identityKeys]
  | registryEntries kind cut =>
    rw [Postgres.handle, Postgres.handle, h.toSteady.registryEntries hdb]
  | resolvePrincipal issuer subject =>
    rw [Postgres.handle, Postgres.handle, resolvePrincipal, resolvePrincipal,
      h.principalBindings]
  | _ => exact ho.elim

end Anchored

end Postgres

/-! ### Grounds -/

/-- **What an Act stands on**: an evaluation of a request, all of whose checks hold in the
database `db`. -/
structure Grounds (P : Primitives) (service : AuthorityService) (db : Postgres)
    (request : ActionRequest) (principal : Option RequestPrincipal) (E : EvaluatedAction)
    (act : Act) : Prop where
  command : request.command = .ok E.command
  actType : E.actType = request.actType
  authChain : E.authChain = request.authChain
  performer : (AuthorityService.performer E.command E.decision.cut).run (Postgres.handle P) db =
    (.ok E.identity, db)
  verified : E.command.verifies P E.identity = true
  context : ∃ requester,
    (IdentityService.resolveRequester service.allowSignedWithoutOauth E.identity principal
      E.decision.cut).run (Postgres.handle P) db = (.ok requester, db) ∧
    request.context (AuthorityService.derived E.identity requester principal) = .ok E.context
  payload : ∀ payload, request.payload = some payload →
    objectHash P "payload" payload = .ok request.payloadHash
  registry : (AuthorityService.validateRegistry request E.context E.decision.registryCut).run
    (Postgres.handle P) db = (.ok (), db)
  rules : ∃ rules,
    (service.rules.resolve E.command E.context E.decision.cut E.decision.registryCut).run
      (Postgres.handle P) db = (.ok rules, db) ∧ rules ≠ [] ∧
    (∀ rule ∈ rules, db.registered "rule" rule.hash E.decision.registryCut = true) ∧
    authorize E.identity E.command E.context E.decision.cut E.decision.registryCut rules
      = .ok E.decision
  permitted : E.decision.outcome ∈ permittedOutcomes request.actType
  act : ∃ actHash commandHash contextHash, E.command.hash P = .ok commandHash ∧
    E.context.hash P = .ok contextHash ∧
    act = CommitGate.actOf (AuthorityService.submission request E) actHash commandHash contextHash

namespace Grounds

variable {P : Primitives} {service : AuthorityService} {db : Postgres} {request : ActionRequest}
  {principal : Option RequestPrincipal} {E : EvaluatedAction} {act : Act}

/-- An Act is performed by the Identity whose signature was checked. -/
theorem identityHash (h : Grounds P service db request principal E act) :
    act.identityHash = E.identity.hash := by
  obtain ⟨actHash, commandHash, contextHash, -, -, rfl⟩ := h.act
  rfl

theorem act_actType (h : Grounds P service db request principal E act) :
    act.actType = request.actType := by
  obtain ⟨actHash, commandHash, contextHash, -, -, rfl⟩ := h.act
  exact h.actType

end Grounds

/-! ### Clients that vouch for their Acts -/

namespace Clients

variable {ι : Type} {P : Primitives} {db s t : Postgres} {vouched : ι → Act → Prop} {i : ι}

/-- An Act that was there at the start, or one that a client vouches for. -/
def Accounted (db : Postgres) (vouched : ι → Act → Prop) (a : Act) : Prop :=
  a ∈ db.acts ∨ ∃ i, vouched i a

/-- **Clients that bind nobody, and commit no Act but those they vouch for.** -/
def vouching (P : Primitives) (db : Postgres) (vouched : ι → Act → Prop) :
    Discipline (Postgres.handle P) ι where
  inv s := Postgres.Anchored db s ∧ ∀ a ∈ s.acts, Accounted db vouched a
  rely _ _ := True
  allowed _ _ _ := True
  good i _ o := o.KeepsBindings ∧
    ∀ act canon commandType, o = .commitAct act canon commandType → vouched i act
  refl _ := trivial
  trans _ _ := trivial
  keeps i s o hinv _ hgood := by
    refine ⟨⟨hinv.1.handle hgood.1, ?_⟩, trivial⟩
    rcases Postgres.handle_cases_of_keepsBindings (P := P) hgood.1 s with heq |
      ⟨h, canon, kind, hput⟩ | ⟨act, canon, commandType, ho, hinserted⟩
    · rw [heq]
      exact hinv.2
    · rw [(Postgres.putObject_ok hput).acts]
      exact hinv.2
    · rw [hinserted.acts]
      intro a ha
      rcases List.mem_append.mp ha with ha | ha
      · exact hinv.2 a ha
      · rw [List.mem_singleton.mp ha]
        exact Or.inr ⟨i, hgood.2 act canon commandType ho⟩

theorem vouching_of_isRead (o : LedgerOp) (ho : o.IsRead) (t : Postgres)
    (_ : (vouching P db vouched).inv t) (_ : (vouching P db vouched).allowed i t o) :
    (vouching P db vouched).good i t o := by
  refine ⟨ho.isPlain.keepsBindings, ?_⟩
  rintro act canon commandType rfl
  exact ho.elim

theorem vouching_of_isPlain (o : LedgerOp) (ho : o.IsPlain) (t : Postgres)
    (_ : (vouching P db vouched).inv t) (_ : (vouching P db vouched).allowed i t o) :
    (vouching P db vouched).good i t o := by
  refine ⟨ho.keepsBindings, ?_⟩
  rintro act canon commandType rfl
  exact ho.elim

/-- A client that reads only vouches for nothing. -/
theorem vouches_of_isRead {α : Type} {p : LedgerM α} (hp : p.Only LedgerOp.IsRead) :
    Safe (vouching P db vouched) i (fun _ _ => True) p s :=
  .of_only hp vouching_of_isRead fun _ _ _ _ => trivial

/-- **A part of a program that reads only what is never old**: what it returns it would have
returned at the start. -/
theorem bind_anchored {α β : Type} {p : LedgerM α} {f : α → LedgerM β} {Q : β → Postgres → Prop}
    (hdb : db.Defined) (hp : p.Only LedgerOp.IsAnchored)
    (hf : ∀ a, p.run (Postgres.handle P) db = (.ok a, db) →
      ∀ t, Safe (vouching P db vouched) i Q (f a) t) :
    Safe (vouching P db vouched) i Q (p >>= f) s :=
  .bind (.of_fixed hp (fun _ ho _ hinv => hinv.1.handle_eq hdb ho)
    (fun _ ho => Postgres.handle_isRead ho.isRead db)
    (fun o ho => vouching_of_isRead o ho.isRead) fun a hrun t _ _ => hf a hrun t)

/-- A part of a program that reads, and whose result does not matter. -/
theorem bind_read {α β : Type} {p : LedgerM α} {f : α → LedgerM β} {Q : β → Postgres → Prop}
    (hp : p.Only LedgerOp.IsRead) (hf : ∀ a t, Safe (vouching P db vouched) i Q (f a) t) :
    Safe (vouching P db vouched) i Q (p >>= f) s :=
  .bind_only hp vouching_of_isRead fun a t _ _ => hf a t

/-! ### The gate -/

/-- A resolution that passes the structural check links a request for review. -/
theorem vouches_requireStructuralProof {command : Command} {commandHash : Hash}
    {actType : String} {authChain : List Hash} :
    Safe (vouching P db vouched) i
      (fun _ _ => actType = "AuthorizationResolved" → ∃ q, Accounted db vouched q ∧
        q.actType = "ReviewRequested" ∧ q.commandHash = commandHash)
      (CommitGate.requireStructuralProof P command commandHash actType authChain) s := by
  by_cases hresolved : actType = "AuthorizationResolved"
  · have hreviewed : actType ≠ "AuthorizationReviewed" := by
      rw [hresolved]
      decide
    rw [CommitGate.requireStructuralProof, if_neg hreviewed]
    refine Safe.bind (Safe.imp (Safe.mapM
      (F := fun (_ : Hash) (found : Option Act) (_ : Postgres) =>
        ∀ a, found = some a → Accounted db vouched a) ?_ ?_) ?_)
    · exact fun _ _ _ _ _ hfound => hfound
    · intro h t _ _
      refine Safe.call fun u hu _ _ => ⟨vouching_of_isRead (.getAct h) trivial u hu trivial, ?_⟩
      intro found hfound v _ _ a ha
      subst ha
      exact hu.2 a (Postgres.getAct_eq_some (Except.ok.inj hfound)).1
    · intro links t _ _ hlinks
      rw [if_pos hresolved]
      refine Safe.bind_raiseWhen fun hrequested => ?_
      refine Safe.imp (Q := fun _ _ => True) ?_ fun _ _ _ _ _ _ => ?_
      · refine Safe.bind_raiseWhen fun _ => bind_read ?_ fun _ _ =>
          .raiseWhen fun _ _ _ _ => trivial
        exact (Only.anyM (fun _ => .bind (CommitGate.only_reviewedCommand _) fun _ => .pure _)
          _).mono fun _ => LedgerOp.IsGateRead.isRead
      · -- The request is one of the links.
        obtain ⟨q, hq, hasked⟩ := List.any_eq_true.mp (eq_true_of_ne_false hrequested)
        rw [decide_eq_true_eq] at hasked
        obtain ⟨h, -, hfound⟩ := exists_of_mem_right hlinks (List.reduceOption_mem_iff.mp hq)
        exact ⟨q, hfound q rfl, hasked⟩
  · exact .of_only (CommitGate.only_requireStructuralProof _ _ _ _)
      (fun o ho => vouching_of_isRead o ho.isRead) fun _ _ _ _ h => absurd h hresolved

/-- **The gate vouches for the Act it commits** if whoever calls it does. -/
theorem vouches_gate {c : Submission}
    (hvouched : ∀ actHash commandHash contextHash, c.command.hash P = .ok commandHash →
      c.context.hash P = .ok contextHash → (c.actType = "AuthorizationResolved" →
        ∃ q, Accounted db vouched q ∧ q.actType = "ReviewRequested" ∧
          q.commandHash = commandHash) →
      vouched i (CommitGate.actOf c actHash commandHash contextHash)) :
    Safe (vouching P db vouched) i (fun _ _ => True) (CommitGate.commit P c) s := by
  rw [CommitGate.commit]
  refine Safe.bind_raiseWhen fun _ => Safe.bind_raiseWhen fun _ => ?_
  refine Safe.bind_ofExcept fun value _ => Safe.bind_ofExcept fun actHash _ => ?_
  refine bind_read (.call trivial) fun existing t => ?_
  rcases existing with _ | act
  · rw [CommitGate.commitFresh]
    refine Safe.bind_raiseWhen fun _ => Safe.bind_ofExcept fun commandHash hcommand =>
      Safe.bind_ofExcept fun contextHash hcontext => ?_
    refine bind_read ((CommitGate.only_alreadySettled _ _).mono
      fun _ => LedgerOp.IsGateRead.isRead) fun _ t => Safe.bind_raiseWhen fun _ => ?_
    refine Safe.bind (vouches_requireStructuralProof.imp fun _ t _ _ hrequested => ?_)
    refine bind_read (.call trivial) fun _ _ => Safe.bind_raiseWhen fun _ => ?_
    refine bind_read (.call trivial) fun _ _ => Safe.bind_raiseWhen fun _ => ?_
    refine bind_read (.call trivial) fun _ _ => Safe.bind_raiseWhen fun _ => ?_
    refine Safe.bind_raiseWhen fun _ => ?_
    refine bind_read (CommitGate.only_anyM_not (fun _ => .call trivial) _) fun _ _ =>
      Safe.bind_raiseWhen fun _ => ?_
    refine bind_read (CommitGate.only_anyM_not (fun _ => .call trivial) _) fun _ _ =>
      Safe.bind_raiseWhen fun _ => ?_
    refine bind_read (.call trivial) fun _ _ => Safe.bind_raiseWhen fun _ => ?_
    refine bind_read (CommitGate.only_anyM_not (fun _ => .call trivial) _) fun _ _ =>
      Safe.bind_raiseWhen fun _ => ?_
    -- Two objects are stored, and then the Act is handed over.
    rw [CommitGate.write]
    refine Safe.bind_ofExcept fun _ _ => .bind_only (.call (by trivial)) vouching_of_isPlain
      fun _ _ _ _ => ?_
    refine Safe.bind_ofExcept fun _ _ => .bind_only (.call (by trivial)) vouching_of_isPlain
      fun _ _ _ _ => Safe.mapError ?_ _
    refine Safe.bind_ofExcept fun canon _ => Safe.call fun _ _ _ _ =>
      ⟨⟨trivial, ?_⟩, fun _ _ _ _ _ => trivial⟩
    rintro act canon commandType heq
    cases heq
    exact hvouched actHash commandHash contextHash hcommand hcontext hrequested
  · exact Safe.pure fun _ _ _ => trivial

/-! ### The service -/

section Commit

variable {rootIdentityHash : Option Hash} {ruleNames : List String}
  {staticRules : Dict String Rule} {allow : Bool} {request : ActionRequest}
  {principal : Option RequestPrincipal}

theorem only_performer_anchored (command : Command) (cut : Cut) :
    (AuthorityService.performer command cut).Only LedgerOp.IsAnchored := by
  refine .bind (.call trivial) fun found => ?_
  rcases found with _ | identity
  · exact .raise _
  · exact .pure _

theorem only_resolveRequester_anchored (allow : Bool) (performer : Identity)
    (principal : Option RequestPrincipal) (cut : Cut) :
    (IdentityService.resolveRequester allow performer principal cut).Only
      LedgerOp.IsAnchored := by
  rcases principal with _ | principal
  · exact .ite (.raise _) (.pure _)
  · refine .bind (.call trivial) fun resolved => ?_
    rcases resolved with _ | requesterHash
    · exact .raise _
    · refine .ite (.pure _) (.bind (.call trivial) fun found => ?_)
      rcases found with _ | requester
      · exact .raise _
      · exact .pure _

theorem only_validateRegistry_anchored (request : ActionRequest) (context : Context)
    (registryCut : Cut) :
    (AuthorityService.validateRegistry request context registryCut).Only
      LedgerOp.IsAnchored := by
  refine .bind (.call trivial) fun _ => .bind (.raiseWhen _ _) fun _ => ?_
  refine .bind (.call trivial) fun _ => .bind (.raiseWhen _ _) fun _ => ?_
  exact .forM (f := AuthorityService.requireContextType registryCut)
    (fun _ => .bind (.call trivial) fun _ => .raiseWhen _ _) _

/-- A payload that came with the request is the one it names. -/
theorem yields_validatePayload : (AuthorityService.validatePayload P request).Yields fun _ =>
    ∀ payload, request.payload = some payload →
      objectHash P "payload" payload = .ok request.payloadHash := by
  rw [AuthorityService.validatePayload]
  rcases hpayload : request.payload with _ | payload
  · exact (Yields.always _).bind fun _ _ => .raiseWhen fun _ _ h => by cases h
  · dsimp only
    refine Yields.bind (.ofExcept fun _ => id) fun actual hactual =>
      .raiseWhen fun hsame given h => ?_
    cases h
    rw [hactual, not_not.mp hsame]

theorem vouches_validatePayload :
    Safe (vouching P db vouched) i
      (fun _ _ => ∀ payload, request.payload = some payload →
        objectHash P "payload" payload = .ok request.payloadHash)
      (AuthorityService.validatePayload P request) s :=
  .of_yields (AuthorityService.only_validatePayload request) yields_validatePayload
    vouching_of_isRead

/-- **An evaluation that returns** has grounds for everything but the Act. -/
theorem vouches_evaluate (hdb : db.Defined) :
    Safe (vouching P db vouched) i
      (fun E _ => ∀ act, E.decision.outcome ∈ permittedOutcomes E.actType →
        (∃ actHash commandHash contextHash, E.command.hash P = .ok commandHash ∧
          E.context.hash P = .ok contextHash ∧ act = CommitGate.actOf
            (AuthorityService.submission request E) actHash commandHash contextHash) →
        Grounds P ⟨ConfiguredRuleResolver.resolve rootIdentityHash ruleNames staticRules, allow⟩ db
          request principal E act)
      (AuthorityService.evaluate P
        ⟨ConfiguredRuleResolver.resolve rootIdentityHash ruleNames staticRules, allow⟩ request
        principal) s := by
  rw [AuthorityService.evaluate]
  refine Safe.bind_ofExcept fun command hcommand => bind_read (.call trivial) fun currentCut t => ?_
  generalize request.historyCut.getD currentCut = cut
  dsimp only
  generalize request.registryCut.getD cut = registryCut
  rw [AuthorityService.evaluateAt]
  refine bind_read (.call trivial) fun _ _ => Safe.bind_raiseWhen fun _ => ?_
  refine bind_read (.call trivial) fun _ _ => Safe.bind_raiseWhen fun _ => ?_
  -- From here on the answers are those of the start.
  refine bind_anchored hdb (only_performer_anchored _ _) fun identity hperformer _ => ?_
  refine Safe.bind_raiseWhen fun hverified => ?_
  refine bind_anchored hdb (only_resolveRequester_anchored _ _ _ _) fun requester hrequester _ => ?_
  refine Safe.bind_ofExcept fun context hcontext => ?_
  refine Safe.bind (vouches_validatePayload.imp fun _ _ _ _ hpayload => ?_)
  refine bind_anchored hdb (only_validateRegistry_anchored _ _ _) fun _ hregistry _ => ?_
  refine bind_anchored hdb (.bind (.call trivial) fun _ => .ofExcept _) fun rules hrules _ => ?_
  refine Safe.bind_raiseWhen fun hsome => ?_
  refine bind_anchored hdb (CommitGate.only_anyM_not (fun _ => .call trivial) _)
    fun stray hstray _ => ?_
  refine Safe.bind_raiseWhen fun hknown => Safe.bind_ofExcept fun decision hdecision => ?_
  refine Safe.pure fun _ _ _ act hpermitted hact => ?_
  obtain ⟨hcut, hregistryCut, -, -⟩ := authorize_ok hdecision
  have hregistered : ∀ rule ∈ rules, db.registered "rule" rule.hash registryCut = true := by
    have hany : (rules.anyM fun rule : Rule => do
          let known ← registered "rule" rule.hash registryCut
          return !known).run (Postgres.handle P) db =
        (.ok (rules.any fun rule => !db.registered "rule" rule.hash registryCut), db) :=
      run_anyM_of_eq (fun _ => rfl) rules
    cases hstray.symm.trans hany
    intro rule hrule
    by_contra hunknown
    exact hknown (List.any_eq_true.mpr ⟨rule, hrule, by simpa using hunknown⟩)
  refine ⟨hcommand, rfl, rfl, ?_, eq_true_of_ne_false hverified, ⟨requester, ?_, hcontext⟩,
    hpayload, ?_, ⟨rules, ?_, ?_, ?_, ?_⟩, hpermitted, hact⟩
  · rw [hcut]
    exact hperformer
  · rw [hcut]
    exact hrequester
  · rw [hregistryCut]
    exact hregistry
  · rw [hcut, hregistryCut]
    exact hrules
  · rintro rfl
    exact hsome rfl
  · rw [hregistryCut]
    exact hregistered
  · rw [hcut, hregistryCut]
    exact hdecision

/-- **A commit vouches for its Act** if its grounds are enough for that. -/
theorem vouches_commit (hdb : db.Defined)
    (hvouched : ∀ E act, Grounds P
        ⟨ConfiguredRuleResolver.resolve rootIdentityHash ruleNames staticRules, allow⟩ db request
        principal E act →
      (act.actType = "AuthorizationResolved" → ∃ q, Accounted db vouched q ∧
        q.actType = "ReviewRequested" ∧ q.commandHash = act.commandHash) → vouched i act) :
    Safe (vouching P db vouched) i (fun _ _ => True) (AuthorityService.commit P
      ⟨ConfiguredRuleResolver.resolve rootIdentityHash ruleNames staticRules, allow⟩ request
      principal) s := by
  rw [AuthorityService.commit]
  refine Safe.bind ((vouches_evaluate hdb).imp fun E t _ _ hgrounds => ?_)
  rw [AuthorityService.admitEvaluated]
  refine Safe.bind_raiseWhen fun hpermitted => ?_
  have hend : ∀ t, Safe (vouching P db vouched) i (fun _ _ => True)
      (AuthorityService.commitEvaluated P request E) t := by
    intro t
    rw [AuthorityService.commitEvaluated]
    refine bind_read (.call trivial) fun cutBefore _ => Safe.bind_raiseWhen fun _ => ?_
    refine Safe.bind_only (AuthorityService.only_storePayload _) vouching_of_isPlain
      fun _ _ _ _ => Safe.bind ((vouches_gate fun actHash commandHash contextHash hcommand
        hcontext hrequested => ?_).imp fun act _ _ _ _ => ?_)
    · exact hvouched E _ (hgrounds _ (not_not.mp hpermitted) ⟨actHash, commandHash, contextHash,
        hcommand, hcontext, rfl⟩) hrequested
    · split
      · exact Safe.pure fun _ _ _ => trivial
      · exact Safe.pure fun _ _ _ => trivial
  split
  · refine bind_read (AuthorityService.only_settledConsequence _) fun settled t => ?_
    rcases settled with _ | result
    · exact hend t
    · exact Safe.pure fun _ _ _ => trivial
  · exact hend t

/-- **A door that binds nobody** vouches for what a commit vouches for. -/
theorem vouches_serve {v : Doors.Visit} (hdoor : ∀ op, v.door ≠ .principal op)
    (hcommit : ∀ t, Safe (vouching P db vouched) i (fun _ _ => True) (AuthorityService.commit P
      ⟨ConfiguredRuleResolver.resolve rootIdentityHash ruleNames staticRules, allow⟩
      v.call.request v.call.principal) t) :
    Safe (vouching P db vouched) i (fun _ _ => True) (v.door.serve P
      ⟨ConfiguredRuleResolver.resolve rootIdentityHash ruleNames staticRules, allow⟩
      v.call.request v.call.principal) s := by
  rcases hv : v.door with _ | _ | _ | op
  · exact hcommit s
  · exact Safe.bind_ofExcept fun _ _ => hcommit s
  · exact Safe.bind_ofExcept fun _ _ => hcommit s
  · exact absurd hv (hdoor op)

end Commit

/-! ### Every schedule -/

variable [DecidableEq ι]

/-- **Clients that vouch for their Acts one by one account for history together.** -/
theorem accounted_exec {α : Type} (vouched : ι → Act → Prop)
    (c : Config LedgerOp.Ret Raised Postgres ι α)
    (hsafe : ∀ i, Safe (vouching P c.state vouched) i (fun _ _ => True) (c.rest i) c.state)
    (schedule : List ι) :
    ∀ a ∈ (exec (Postgres.handle P) c schedule).state.acts, Accounted c.state vouched a :=
  (exec_safe (D := vouching P c.state vouched) ⟨Postgres.Anchored.refl _, fun _ ha => Or.inl ha⟩
    hsafe fun _ _ _ _ _ => trivial).1.2

/-- A database and its clients, each about to pass through a door. -/
def visiting (P : Primitives) (service : AuthorityService) (db : Postgres)
    (visits : ι → Doors.Visit) :
    Config LedgerOp.Ret Raised Postgres ι (EvaluatedAction × Act) where
  state := db
  rest i := (visits i).door.serve P service (visits i).call.request (visits i).call.principal

/-- **Every admission is grounded in the database of the start.** Any number of clients pass
through the doors that bind nobody, in any interleaving. Every Act that is in history
afterwards was there before, or one of the requests has an evaluation that ends in this Act
and all of whose checks hold in the database as it was at the start: the signature under the
key the ledger holds, the requester the principal is bound to, the registrations, and the
Rules, whose combined outcome permits the Act. -/
theorem admissions_grounded (P : Primitives) (rootIdentityHash : Option Hash)
    (ruleNames : List String) (staticRules : Dict String Rule) (allow : Bool) (db : Postgres)
    (hdefined : db.Defined) (visits : ι → Doors.Visit)
    (hdoors : ∀ i op, (visits i).door ≠ .principal op) (schedule : List ι) :
    ∀ act ∈ (exec (Postgres.handle P) (visiting P
        ⟨ConfiguredRuleResolver.resolve rootIdentityHash ruleNames staticRules, allow⟩ db visits)
        schedule).state.acts,
      act ∈ db.acts ∨ ∃ i E, Grounds P
        ⟨ConfiguredRuleResolver.resolve rootIdentityHash ruleNames staticRules, allow⟩ db
        (visits i).call.request (visits i).call.principal E act := by
  intro act hact
  rcases accounted_exec (fun i act => ∃ E, Grounds P
      ⟨ConfiguredRuleResolver.resolve rootIdentityHash ruleNames staticRules, allow⟩ db
      (visits i).call.request (visits i).call.principal E act)
    (visiting P _ db visits) (fun i => vouches_serve (hdoors i) fun _ =>
      vouches_commit hdefined fun E _ hgrounds _ => ⟨E, hgrounds⟩) schedule act hact with
    hold | hnew
  · exact Or.inl hold
  · exact Or.inr hnew

/-- Two clients create the same thing, and one of them is interrupted: what the other has
got admitted is grounded. -/
theorem admissions_grounded_interrupted : ∃ act E, act ∉ Sample.database.acts ∧
    Grounds Sample.libraries Sample.authority Sample.database Sample.createThing none E act := by
  have hgrounded : ∀ schedule, ∀ act ∈ (exec (Postgres.handle Sample.libraries) (visiting
      Sample.libraries Sample.authority Sample.database fun _ : Bool =>
        ⟨.commit, ⟨Sample.createThing, none⟩⟩) schedule).state.acts,
      act ∈ Sample.database.acts ∨ ∃ (_ : Bool) (E : EvaluatedAction), Grounds Sample.libraries
        Sample.authority Sample.database Sample.createThing none E act :=
    admissions_grounded Sample.libraries (some Sample.root.hash)
      [ConfiguredRuleResolver.rootAuthorityName] Dict.empty true Sample.database defined_database
      (fun _ : Bool => ⟨.commit, ⟨Sample.createThing, none⟩⟩) fun _ _ h => by cases h
  have hnew : ∃ act ∈ (exec (Postgres.handle Sample.libraries) (visiting Sample.libraries
      Sample.authority Sample.database fun _ : Bool => ⟨.commit, ⟨Sample.createThing, none⟩⟩)
      (interrupted ++ [true])).state.acts, act ∉ Sample.database.acts := by
    decide +kernel
  obtain ⟨act, hact, hfresh⟩ := hnew
  rcases hgrounded _ act hact with hold | ⟨_, E, hgrounds⟩
  · exact absurd hold hfresh
  · exact ⟨act, E, hfresh, hgrounds⟩

end Clients

end PowerfarmKernel
