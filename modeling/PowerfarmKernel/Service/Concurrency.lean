import Mathlib.Data.List.ReduceOption
import PowerfarmKernel.Ledger.Postgres
import PowerfarmKernel.Lib.Interleaving
import PowerfarmKernel.Service.Sample

/-!
# Clients that share a database

Several clients of one database, each of which runs `AuthorityService.commit`. The gate
reads the stages of a Command and the links of its chain long before it hands the Act to
the database, and other clients commit in between. What makes this safe is one argument:
an evaluation looks only at a cut that is in history (`is_closed_cut`), and `commit_act`
inserts an Act only when its cut is all of history; so from that look on, nothing was
committed, and whatever the client read in between is still so
(`PowerfarmKernel.Postgres.Grown.acts_eq_of_cut`).

`PowerfarmKernel.Clients.discipline` states what every client keeps, and
`PowerfarmKernel.Clients.safe_commit` that a run of the service keeps it. The argument
has room for one more fact (`fact` below) that is established while the requester is
resolved.
-/

namespace PowerfarmKernel

open Prog LedgerM Interleaving

namespace Clients

variable {ι : Type}

/-! ### The discipline -/

/-- **An Act that was not let past a review**: where its Command was under review, its
chain links a resolution of that Command. -/
def Reviewed (history : List Act) (act : Act) : Prop :=
  act.IsConsequential →
    (∃ q ∈ history, q.actType = "ReviewRequested" ∧ q.commandHash = act.commandHash) →
    ∃ r ∈ history, r.hash ∈ act.authChain ∧ r.actType = "AuthorizationResolved" ∧
      r.commandHash = act.commandHash

/-- What is asked of a client's step. -/
def GoodStep (fact : Postgres → Prop) (db : Postgres) : LedgerOp → Prop
  | .commitAct act _ _ => db.historyCut = act.decisionCut → Reviewed db.acts act ∧ fact db
  | _ => True

/-- **What every client keeps**: the Acts it commits at the end of history were not let
past a review. -/
def discipline (P : Primitives) (fact : ι → Postgres → Prop)
    (allowed : ι → Postgres → LedgerOp → Prop) : Discipline (Postgres.handle P) ι where
  inv := Postgres.Constraints
  rely := Postgres.Grown
  allowed := allowed
  good i db o := GoodStep (fact i) db o
  refl := Postgres.Grown.refl
  trans := Postgres.Grown.trans
  keeps _ _ o hinv _ _ := ⟨hinv.handle o, Postgres.grown_handle P o _⟩

theorem goodStep_of_isPlain {fact : Postgres → Prop} {o : LedgerOp} (ho : o.IsPlain)
    (db : Postgres) : GoodStep fact db o := by
  cases o with
  | commitAct act canon commandType => exact absurd ho id
  | _ => trivial

/-- **A cut that is in history, and what holds as long as there is nothing else.** -/
def Pinned (cut : Cut) (fact : Postgres → Prop) (db : Postgres) : Prop :=
  (∀ x ∈ cut, db.HasAct x) ∧ (db.historyCut = cut → fact db)

section Clients

variable {P : Primitives} {fact : ι → Postgres → Prop} {allowed : ι → Postgres → LedgerOp → Prop}
  {i : ι} {s t : Postgres} {cut : Cut} {c : Submission}

/-- Facts that hold as long as history has not moved. -/
def Stable (fact : Postgres → Prop) : Prop :=
  ∀ s t, Postgres.Constraints s → Postgres.Grown s t → t.acts = s.acts → fact s → fact t

theorem historyCut_eq (h : t.acts = s.acts) : t.historyCut = s.historyCut := by
  rw [Postgres.historyCut, Postgres.historyCut, h]

theorem Pinned.later {fact : Postgres → Prop} (hfact : Stable fact) (hs : Postgres.Constraints s)
    (ht : Postgres.Constraints t) (hst : Postgres.Grown s t) (h : Pinned cut fact s) :
    Pinned cut fact t := by
  refine ⟨fun x hx => hst.hasAct (h.1 x hx), fun hcut => ?_⟩
  have hacts := hst.acts_eq_of_cut ht h.1 hcut
  exact hfact s t hs hst hacts (h.2 (by rw [← historyCut_eq hacts]; exact hcut))

/-! ### The structural check -/

/-- What the structural check finds out of an Act of this type, chain and Command: it is
true of any Act like it. -/
def Checked (actType : String) (authChain : List Hash) (commandHash : Hash) (db : Postgres) :
    Prop :=
  ∀ act : Act, act.actType = actType → act.authChain = authChain → act.commandHash = commandHash →
    Reviewed db.acts act

theorem stable_checked (actType : String) (authChain : List Hash) (commandHash : Hash) :
    Stable (Checked actType authChain commandHash) := by
  intro s t _ _ hacts h act htype hchain hcommand
  rw [hacts]
  exact h act htype hchain hcommand

theorem checked_of_lifecycle {actType : String} {authChain : List Hash} {commandHash : Hash}
    (h : actType ∈ lifecycleActTypes) (db : Postgres) :
    Checked actType authChain commandHash db := by
  intro act htype _ _ hcons
  exact absurd (htype ▸ h) hcons

/-- **The structural check is not overtaken**: what it has read of the Command's stages
and of the chain is still so when the Act is inserted. -/
theorem safe_requireStructuralProof {command : Command} {commandHash : Hash} {actType : String}
    {authChain : List Hash} (hcut : ∀ x ∈ cut, s.HasAct x) :
    Safe (discipline P fact allowed) i
      (fun _ t => Pinned cut (Checked actType authChain commandHash) t)
      (CommitGate.requireStructuralProof P command commandHash actType authChain) s := by
  have hkept : ∀ (_ : Unit) t, Postgres.Constraints t → Postgres.Grown s t →
      actType ∈ lifecycleActTypes → Pinned cut (Checked actType authChain commandHash) t :=
    fun _ t _ hst hstage =>
      ⟨fun x hx => hst.hasAct (hcut x hx), fun _ => checked_of_lifecycle hstage t⟩
  by_cases hstage : actType ∈ lifecycleActTypes
  · exact Safe.of_only (CommitGate.only_requireStructuralProof _ _ _ _)
      (fun o ho t _ _ => goodStep_of_isPlain ho.isRead.isPlain t) fun x t ht hst =>
        hkept x t ht hst hstage
  have hreviewed : actType ≠ "AuthorizationReviewed" := by
    rintro rfl
    exact hstage reviewed_mem_lifecycle
  have hresolved : actType ≠ "AuthorizationResolved" := by
    rintro rfl
    exact hstage resolved_mem_lifecycle
  rw [CommitGate.requireStructuralProof, if_neg hreviewed]
  -- The links of the chain, each of them an Act of history from here on.
  refine Safe.bind (Safe.imp (Safe.mapM
    (F := fun (h : Hash) (found : Option Act) (t : Postgres) =>
      ∀ a, found = some a → a ∈ t.acts ∧ a.hash = h) ?_ ?_) ?_)
  · intro h found t u htu hfound a ha
    exact ⟨htu.acts.subset (hfound a ha).1, (hfound a ha).2⟩
  · intro h t ht hst
    refine Safe.call fun u hu htu _ => ⟨trivial, fun found hfound v hv huv a ha => ?_⟩
    subst ha
    obtain ⟨hmem, hhash⟩ := Postgres.getAct_eq_some (Except.ok.inj hfound)
    exact ⟨huv.acts.subset hmem, hhash⟩
  · intro links t ht hst hlinks
    rw [if_neg hresolved, if_neg hstage]
    refine Safe.bind (Safe.call fun u hu htu _ => ⟨trivial, fun owned howned v hv huv => ?_⟩)
    cases howned
    refine Safe.raiseWhen fun hpassed w hw hvw => ?_
    have htw : Postgres.Grown t w := htu.trans (huv.trans hvw)
    refine ⟨fun x hx => (hst.trans htw).hasAct (hcut x hx), ?_⟩
    rintro heq act htype rfl rfl hcons ⟨q, hq, hqtype, hqcommand⟩
    -- Nothing was committed since the stages were read.
    have hacts : w.acts = u.acts := (huv.trans hvw).acts_eq_of_cut hw
      (fun x hx => (hst.trans htu).hasAct (hcut x hx)) heq
    have hunder : ((u.getActsForCommand act.commandHash).any fun a =>
        a.actType = "ReviewRequested") = true := by
      rw [List.any_eq_true]
      rw [hacts] at hq
      exact ⟨q, Postgres.mem_getActsForCommand.mpr ⟨hq, hqcommand⟩, by simp [hqtype]⟩
    have hlinked : (links.reduceOption.any fun a => decide (a.actType = "AuthorizationResolved" ∧
        a.commandHash = act.commandHash)) = true := by
      by_contra hnone
      exact hpassed ⟨hunder, eq_false_of_ne_true hnone⟩
    obtain ⟨r, hr, hres⟩ := List.any_eq_true.mp hlinked
    rw [decide_eq_true_eq] at hres
    obtain ⟨h, hh, hfound⟩ := exists_of_mem_right hlinks (List.reduceOption_mem_iff.mp hr)
    obtain ⟨hmem, hhash⟩ := hfound r rfl
    refine ⟨r, htw.acts.subset hmem, ?_, hres⟩
    rw [hhash]
    exact hh

/-! ### The gate -/

theorem good_of_isRead (o : LedgerOp) (ho : o.IsRead) (t : Postgres)
    (_ : (discipline P fact allowed).inv t) (_ : (discipline P fact allowed).allowed i t o) :
    (discipline P fact allowed).good i t o :=
  goodStep_of_isPlain ho.isPlain t

theorem good_of_isPlain (o : LedgerOp) (ho : o.IsPlain) (t : Postgres)
    (_ : (discipline P fact allowed).inv t) (_ : (discipline P fact allowed).allowed i t o) :
    (discipline P fact allowed).good i t o :=
  goodStep_of_isPlain ho t

/-- What is known of an Act that is about to be committed. -/
def Ready (fact : Postgres → Prop) (c : Submission) (commandHash : Hash) (db : Postgres) : Prop :=
  Pinned c.decision.cut (fun db => Checked c.actType c.authChain commandHash db ∧ fact db) db

theorem Ready.later {fact : Postgres → Prop} (hfact : Stable fact) (hs : Postgres.Constraints s)
    (ht : Postgres.Constraints t) (hst : Postgres.Grown s t) {commandHash : Hash}
    (h : Ready fact c commandHash s) : Ready fact c commandHash t := by
  refine Pinned.later (fun s t hs hst hacts hboth => ⟨?_, hfact s t hs hst hacts hboth.2⟩) hs ht
    hst h
  exact stable_checked _ _ _ s t hs hst hacts hboth.1

/-- **An Act that is ready is handed over as it should be.** -/
theorem safe_write (hfact : Stable (fact i)) (hs : Postgres.Constraints s) {value : CanonValue}
    {actHash commandHash contextHash : Hash} (hready : Ready (fact i) c commandHash s) :
    Safe (discipline P fact allowed) i (fun _ _ => True)
      (CommitGate.write P c value actHash commandHash contextHash) s := by
  rw [CommitGate.write]
  refine Safe.bind_ofExcept fun commandCanon _ => ?_
  refine Safe.bind_only (.call (by trivial)) good_of_isPlain fun _ t ht hst => ?_
  refine Safe.bind_ofExcept fun contextCanon _ => ?_
  refine Safe.bind_only (.call (by trivial)) good_of_isPlain fun _ u hu htu => ?_
  refine Safe.mapError ?_ _
  refine Safe.bind_ofExcept fun canon _ => ?_
  refine Safe.call fun v hv huv _ => ?_
  -- If history is still the cut, what was read is still so.
  have hready' := hready.later hfact hs hv (hst.trans (htu.trans huv))
  refine ⟨fun heq => ?_, fun _ _ _ _ _ => trivial⟩
  obtain ⟨hchecked, hkept⟩ := hready'.2 heq
  exact ⟨hchecked _ rfl rfl rfl, hkept⟩

theorem safe_commitFresh (hfact : Stable (fact i)) (hs : Postgres.Constraints s)
    (hpinned : Pinned c.decision.cut (fact i) s) {value : CanonValue} {actHash : Hash} :
    Safe (discipline P fact allowed) i (fun _ _ => True) (CommitGate.commitFresh P c value actHash)
      s := by
  rw [CommitGate.commitFresh]
  refine Safe.bind_raiseWhen fun _ => Safe.bind_ofExcept fun commandHash _ =>
    Safe.bind_ofExcept fun contextHash _ => ?_
  refine Safe.bind_only
    ((CommitGate.only_alreadySettled _ _).mono fun _ => LedgerOp.IsGateRead.isRead)
    good_of_isRead fun _ t ht hst => ?_
  refine Safe.bind_raiseWhen fun _ => Safe.bind ?_
  have hpinned' := hpinned.later hfact hs ht hst
  refine (safe_requireStructuralProof hpinned'.1).imp fun _ u hu htu hchecked => ?_
  have hready : Ready (fact i) c commandHash u :=
    ⟨hchecked.1, fun heq => ⟨hchecked.2 heq, (hpinned'.later hfact ht hu htu).2 heq⟩⟩
  -- From here on the gate reads until it writes.
  refine Safe.bind_only (.call trivial) good_of_isRead fun _ v₁ _ h₁ => ?_
  refine Safe.bind_raiseWhen fun _ => ?_
  refine Safe.bind_only (.call trivial) good_of_isRead fun _ v₂ _ h₂ => ?_
  refine Safe.bind_raiseWhen fun _ => ?_
  refine Safe.bind_only (.call trivial) good_of_isRead fun _ v₃ _ h₃ => ?_
  refine Safe.bind_raiseWhen fun _ => Safe.bind_raiseWhen fun _ => ?_
  refine Safe.bind_only (CommitGate.only_anyM_not (fun _ => .call trivial) _) good_of_isRead
    fun _ v₄ _ h₄ => ?_
  refine Safe.bind_raiseWhen fun _ => ?_
  refine Safe.bind_only (CommitGate.only_anyM_not (fun _ => .call trivial) _) good_of_isRead
    fun _ v₅ _ h₅ => ?_
  refine Safe.bind_raiseWhen fun _ => ?_
  refine Safe.bind_only (.call trivial) good_of_isRead fun _ v₆ _ h₆ => ?_
  refine Safe.bind_raiseWhen fun _ => ?_
  refine Safe.bind_only (CommitGate.only_anyM_not (fun _ => .call trivial) _) good_of_isRead
    fun _ v₇ hv₇ h₇ => ?_
  refine Safe.bind_raiseWhen fun _ => safe_write hfact hv₇ (hready.later hfact hu hv₇ ?_)
  exact h₁.trans (h₂.trans (h₃.trans (h₄.trans (h₅.trans (h₆.trans h₇)))))

/-- **The gate**, called with a Decision whose cut is in history. -/
theorem safe_gate (hfact : Stable (fact i)) (hs : Postgres.Constraints s)
    (hpinned : Pinned c.decision.cut (fact i) s) :
    Safe (discipline P fact allowed) i (fun _ _ => True) (CommitGate.commit P c) s := by
  rw [CommitGate.commit]
  refine Safe.bind_raiseWhen fun _ => Safe.bind_raiseWhen fun _ => ?_
  refine Safe.bind_ofExcept fun value _ => Safe.bind_ofExcept fun actHash _ => ?_
  refine Safe.bind_only (.call trivial) good_of_isRead fun existing t ht hst => ?_
  rcases existing with _ | act
  · exact safe_commitFresh hfact ht (hpinned.later hfact hs ht hst)
  · exact Safe.pure fun _ _ _ => trivial

/-! ### The service -/

variable {service : AuthorityService} {request : ActionRequest}
  {principal : Option RequestPrincipal}

/-- **Resolving the requester** reads only. A fact that holds wherever the principal of
the request resolves holds from there on as long as nothing is committed. -/
theorem safe_resolveRequester {allow : Bool} {performer : Identity} (hfact : Stable (fact i))
    (hnone : principal = none → ∀ db, fact i db)
    (hsome : ∀ p, principal = some p → ∀ db, allowed i db (.resolvePrincipal p.issuer p.subject) →
      db.resolved p.issuer p.subject ≠ none → fact i db)
    (hcut : ∀ x ∈ cut, s.HasAct x) :
    Safe (discipline P fact allowed) i (fun _ t => Pinned cut (fact i) t)
      (IdentityService.resolveRequester allow performer principal cut) s := by
  rcases principal with _ | p
  · exact Safe.of_only (IdentityService.only_resolveRequester _ _ _ _) good_of_isRead
      fun _ t _ hst => ⟨fun x hx => hst.hasAct (hcut x hx), fun _ => hnone rfl t⟩
  rw [IdentityService.resolveRequester]
  refine Safe.bind (Safe.call fun t ht hst hok => ⟨trivial, fun resolved hresolved u hu htu => ?_⟩)
  rcases resolved with _ | requesterHash
  · trivial
  have hpinned : Pinned cut (fact i) t := by
    refine ⟨fun x hx => hst.hasAct (hcut x hx), fun _ => hsome p rfl t hok ?_⟩
    rw [Postgres.resolved_eq_some_iff.mpr hresolved]
    exact Option.some_ne_none _
  -- What is left reads the requester's Identity.
  refine Safe.of_only ?_ good_of_isRead fun _ v hv huv =>
    hpinned.later hfact ht hv (htu.trans huv)
  refine .ite (.pure _) (.bind (.call trivial) fun found => ?_)
  rcases found with _ | requester
  · exact .raise _
  · exact .pure _

/-- **An evaluation looks at a cut that is in history.** What is established while the
requester is resolved, `fact`, holds from then on as long as nothing is committed. -/
theorem safe_evaluate (hfact : Stable (fact i))
    (hnone : principal = none → ∀ db, fact i db)
    (hsome : ∀ p, principal = some p → ∀ db, allowed i db (.resolvePrincipal p.issuer p.subject) →
      db.resolved p.issuer p.subject ≠ none → fact i db) :
    Safe (discipline P fact allowed) i (fun E t => Pinned E.decision.cut (fact i) t)
      (AuthorityService.evaluate P service request principal) s := by
  rw [AuthorityService.evaluate]
  refine Safe.bind_ofExcept fun command _ => ?_
  refine Safe.bind_only (.call trivial) good_of_isRead fun currentCut t ht hst => ?_
  generalize request.historyCut.getD currentCut = historyCut
  generalize request.registryCut.getD historyCut = registryCut
  rw [AuthorityService.evaluateAt]
  refine Safe.bind ?_
  refine Safe.call fun u hu htu _ => ⟨trivial, fun (closed : Bool) hclosed v hv huv => ?_⟩
  refine Safe.bind_raiseWhen fun hyes => ?_
  -- The cut is in history.
  have hcut : ∀ x ∈ historyCut, v.HasAct x := by
    intro x hx
    cases hclosed
    exact huv.hasAct (Postgres.hasAct_of_isClosedCut hu (eq_true_of_ne_false hyes) hx)
  refine Safe.bind_only (.call trivial) good_of_isRead fun _ v₁ _ h₁ => ?_
  refine Safe.bind_raiseWhen fun _ => ?_
  refine Safe.bind_only (AuthorityService.only_performer _ _) good_of_isRead fun _ v₂ hv₂ h₂ => ?_
  refine Safe.bind_raiseWhen fun _ => Safe.bind ?_
  refine (safe_resolveRequester hfact hnone hsome fun x hx =>
    (h₁.trans h₂).hasAct (hcut x hx)).imp fun requester w hw _ hpinned => ?_
  refine Safe.bind_ofExcept fun context _ => ?_
  refine Safe.bind_only (AuthorityService.only_validatePayload _) good_of_isRead
    fun _ w₁ _ h₁ => ?_
  refine Safe.bind_only (AuthorityService.only_validateRegistry _ _ _) good_of_isRead
    fun _ w₂ _ h₂ => ?_
  refine Safe.bind_only (service.rules.reads _ _ _ _) good_of_isRead fun rules w₃ _ h₃ => ?_
  refine Safe.bind_raiseWhen fun _ => ?_
  refine Safe.bind_only (CommitGate.only_anyM_not (fun _ => .call trivial) _) good_of_isRead
    fun _ w₄ hw₄ h₄ => ?_
  refine Safe.bind_raiseWhen fun _ => Safe.bind_ofExcept fun decision hdecision => ?_
  refine Safe.pure fun x hx hx₄ => ?_
  dsimp only
  rw [(authorize_ok hdecision).1]
  exact hpinned.later hfact hw hx
    (h₁.trans (h₂.trans (h₃.trans (h₄.trans hx₄))))

/-- **From a Decision to the database**: the payload is stored and the gate is called,
with a Decision whose cut is in history. -/
theorem safe_commitEvaluated {E : EvaluatedAction} (hfact : Stable (fact i))
    (hs : Postgres.Constraints s) (hpinned : Pinned E.decision.cut (fact i) s) :
    Safe (discipline P fact allowed) i (fun _ _ => True)
      (AuthorityService.commitEvaluated P request E) s := by
  rw [AuthorityService.commitEvaluated]
  refine Safe.bind_only (.call trivial) good_of_isRead fun cutBefore t _ hst => ?_
  refine Safe.bind_raiseWhen fun _ => ?_
  refine Safe.bind_only (AuthorityService.only_storePayload _) good_of_isPlain
    fun _ u hu htu => Safe.bind ?_
  refine (safe_gate hfact hu (hpinned.later hfact hs hu (hst.trans htu))).imp fun act x _ _ _ => ?_
  split
  · exact Safe.pure fun _ _ _ => trivial
  · exact Safe.pure fun _ _ _ => trivial

/-- **A run of the service keeps the discipline.** -/
theorem safe_commit (hfact : Stable (fact i))
    (hnone : principal = none → ∀ db, fact i db)
    (hsome : ∀ p, principal = some p → ∀ db, allowed i db (.resolvePrincipal p.issuer p.subject) →
      db.resolved p.issuer p.subject ≠ none → fact i db) :
    Safe (discipline P fact allowed) i (fun _ _ => True)
      (AuthorityService.commit P service request principal) s := by
  rw [AuthorityService.commit]
  refine Safe.bind ((safe_evaluate hfact hnone hsome).imp fun E t ht _ hpinned => ?_)
  rw [AuthorityService.admitEvaluated]
  refine Safe.bind_raiseWhen fun _ => ?_
  split
  · refine Safe.bind_only (AuthorityService.only_settledConsequence _) good_of_isRead
      fun settled u hu htu => ?_
    rcases settled with _ | result
    · exact safe_commitEvaluated hfact hu (hpinned.later hfact ht hu htu)
    · exact Safe.pure fun _ _ _ => trivial
  · exact safe_commitEvaluated hfact ht hpinned

end Clients

/-! ### Histories the clients bring about -/

section History

open Runs

variable [DecidableEq ι] {α : Type} {P : Primitives} {fact : ι → Postgres → Prop}
  {allowed : ι → Postgres → LedgerOp → Prop} {c : Config LedgerOp.Ret Raised Postgres ι α}
  {Q : ι → α → Postgres → Prop} {schedule earlier : List ι} {i : ι} {act : Act}

/-- The hashes of a stretch of history. -/
def hashes (acts : List Act) : Cut := (acts.map Act.hash).toFinset

/-- **The client admits this Act** when it is scheduled next. -/
def Admits (P : Primitives) (c : Config LedgerOp.Ret Raised Postgres ι α) (i : ι) (act : Act) :
    Prop :=
  (next (Postgres.handle P) c i).state.acts = c.state.acts ++ [act]

/-- **A step that admits an Act** inserts it, and was a commit of it. -/
theorem Admits.inserted (h : Admits P c i act) :
    ∃ canon commandType, Performs c i (.commitAct act canon commandType) ∧
      Postgres.Inserted c.state (next (Postgres.handle P) c i).state act := by
  rcases next_cases (Postgres.handle P) c i with heq | ⟨o, k, hrest, heq⟩
  · rw [Admits, heq] at h
    have hlength := congrArg List.length h
    rw [List.length_append, List.length_singleton] at hlength
    omega
  · rw [Admits, heq] at h
    rw [heq]
    rcases Postgres.handle_cases P o c.state with ⟨act', canon, commandType, rfl, hinserted⟩ | hkept
    · have hsame := hinserted.acts.symm.trans h
      obtain rfl : act' = act := by simpa using hsame
      exact ⟨canon, commandType, by rw [Performs, hrest]; rfl, hinserted⟩
    · have hlength := congrArg List.length (hkept.acts.symm.trans h)
      rw [List.length_append, List.length_singleton] at hlength
      omega

/-- **What a client's discipline says of the Acts it admits**: the cut of the Decision
was all of history, the Act was not let past a review, and the fact still held. -/
theorem good_of_admits (hinv : c.state.Constraints)
    (hsafe : ∀ i, Safe (discipline P fact allowed) i (Q i) (c.rest i) c.state)
    (hallowed : ∀ earlier i, Made schedule earlier i → ∀ o,
      Performs (exec (Postgres.handle P) c earlier) i o →
        allowed i (exec (Postgres.handle P) c earlier).state o)
    (hmade : Made schedule earlier i)
    (hadmits : Admits P (exec (Postgres.handle P) c earlier) i act) :
    act.decisionCut = (exec (Postgres.handle P) c earlier).state.historyCut ∧
      Reviewed (exec (Postgres.handle P) c earlier).state.acts act ∧
      fact i (exec (Postgres.handle P) c earlier).state := by
  obtain ⟨canon, commandType, hperforms, hinserted⟩ := hadmits.inserted
  have hearlier : Postgres.Constraints (exec (Postgres.handle P) c earlier).state :=
    exec_state_inv (fun _ o h => h.handle o) hinv earlier
  have hcut := hinserted.decisionCut hearlier
  exact ⟨hcut,
    exec_good (D := discipline P fact allowed) hinv hsafe hallowed hmade hperforms hcut.symm⟩

/-- **Every Act the clients admit** was decided at exactly the history before it, and
was not let past a review. -/
theorem admitted_exec (hinv : c.state.Constraints)
    (hsafe : ∀ i, Safe (discipline P fact allowed) i (Q i) (c.rest i) c.state)
    (hallowed : ∀ earlier i, Made schedule earlier i → ∀ o,
      Performs (exec (Postgres.handle P) c earlier) i o →
        allowed i (exec (Postgres.handle P) c earlier).state o) :
    c.state.acts <+: (exec (Postgres.handle P) c schedule).state.acts ∧
      ∀ before act, Made (exec (Postgres.handle P) c schedule).state.acts before act →
        c.state.acts <+: before → act.decisionCut = hashes before ∧ Reviewed before act := by
  induction schedule using List.reverseRecOn with
  | nil =>
    refine ⟨List.prefix_rfl, fun before act hmade hbefore => ?_⟩
    have hlength := (List.IsPrefix.length_le hmade).trans hbefore.length_le
    rw [List.length_append, List.length_singleton] at hlength
    omega
  | append_singleton schedule j ih =>
    obtain ⟨hgrown, hold⟩ := ih fun earlier i hmade =>
      hallowed earlier i (hmade.mono (List.prefix_append _ _))
    have hconcat : exec (Postgres.handle P) c (schedule ++ [j])
        = next (Postgres.handle P) (exec (Postgres.handle P) c schedule) j := exec_concat
    rw [hconcat]
    rcases next_cases (Postgres.handle P) (exec (Postgres.handle P) c schedule) j with
      heq | ⟨o, k, -, heq⟩
    · rw [heq]
      exact ⟨hgrown, hold⟩
    rcases Postgres.handle_cases P o (exec (Postgres.handle P) c schedule).state with
      ⟨act, canon, commandType, -, hinserted⟩ | hkept
    · -- Client `j` has committed, so its discipline speaks of this very state.
      have hadmits : Admits P (exec (Postgres.handle P) c schedule) j act := by
        rw [Admits, heq]
        exact hinserted.acts
      obtain ⟨hcut, hreviewed, -⟩ := good_of_admits hinv hsafe hallowed
        (List.prefix_rfl : Made (schedule ++ [j]) schedule j) hadmits
      rw [heq]
      dsimp only
      rw [hinserted.acts]
      refine ⟨hgrown.trans (List.prefix_append _ _), fun before act' hmade hbefore => ?_⟩
      rcases made_concat_iff.mp hmade with hmade | ⟨rfl, rfl⟩
      · exact hold before act' hmade hbefore
      · exact ⟨hcut, hreviewed⟩
    · rw [heq]
      dsimp only
      rw [hkept.acts]
      exact ⟨hgrown, hold⟩

/-! ### Clients of the authority service -/

/-- A database and its clients, each about to run `AuthorityService.commit`. -/
def committing (P : Primitives) (service : AuthorityService) (db : Postgres) (calls : ι → Call) :
    Config LedgerOp.Ret Raised Postgres ι (EvaluatedAction × Act) where
  state := db
  rest i := AuthorityService.commit P service (calls i).request (calls i).principal

/-- **There is no time of check to time of use.** Any number of clients run
`AuthorityService.commit` against one database, and their steps interleave in any order.
Whatever the schedule: history only grows; the decision cut of every admitted Act is
exactly the set of Acts before it; no Command has two consequential Acts; and every
consequential Act whose Command was under review before it links, in its chain, a
resolution of that Command that was admitted before it. -/
theorem no_toctou (P : Primitives) (service : AuthorityService) (db : Postgres)
    (hdb : db.Constraints) (calls : ι → Call) (schedule : List ι) :
    db.acts <+: (exec (Postgres.handle P) (committing P service db calls) schedule).state.acts ∧
      (∀ earlier act,
        Made (exec (Postgres.handle P) (committing P service db calls) schedule).state.acts
          earlier act → db.acts <+: earlier → act.decisionCut = hashes earlier) ∧
      (((exec (Postgres.handle P) (committing P service db calls) schedule).state.acts.filter
        (·.IsConsequential)).map Act.commandHash).Nodup ∧
      ∀ earlier act,
        Made (exec (Postgres.handle P) (committing P service db calls) schedule).state.acts
          earlier act → db.acts <+: earlier → act.IsConsequential →
        (∃ q ∈ earlier, q.actType = "ReviewRequested" ∧ q.commandHash = act.commandHash) →
        ∃ r ∈ earlier, r.hash ∈ act.authChain ∧ r.actType = "AuthorizationResolved" ∧
          r.commandHash = act.commandHash := by
  have hsafe : ∀ i, Safe (discipline P (fun (_ : ι) _ => True) fun _ _ _ => True) i
      (fun _ _ => True) ((committing P service db calls).rest i) db := fun i =>
    safe_commit (fun _ _ _ _ _ _ => trivial) (fun _ _ => trivial) fun _ _ _ _ _ => trivial
  have hallowed : ∀ earlier i, Made schedule earlier i → ∀ o,
      Performs (exec (Postgres.handle P) (committing P service db calls) earlier) i o → True :=
    fun _ _ _ _ _ => trivial
  obtain ⟨hgrown, hadmitted⟩ :=
    admitted_exec (c := committing P service db calls) hdb hsafe hallowed
  have hconstraints : Postgres.Constraints
      (exec (Postgres.handle P) (committing P service db calls) schedule).state :=
    exec_state_inv (fun _ o h => h.handle o) hdb schedule
  exact ⟨hgrown, fun earlier act hmade hbefore => (hadmitted earlier act hmade hbefore).1,
    hconstraints.oneConsequence, fun earlier act hmade hbefore =>
      (hadmitted earlier act hmade hbefore).2⟩

/-- Two clients with one Command, step by step in turn. -/
theorem no_toctou_in_turn : ∃ act,
    (exec (Postgres.handle Sample.libraries) (committing Sample.libraries
      Sample.standingAuthority Sample.database fun _ : Bool => ⟨Sample.createThing, none⟩)
      (List.replicate 30 [true, false]).flatten).state.acts = [Sample.genesis Sample.pad, act] ∧
    act.decisionCut = hashes [Sample.genesis Sample.pad] := by
  obtain ⟨⟨post, hpost⟩, hcut, -⟩ := no_toctou Sample.libraries Sample.standingAuthority
    Sample.database Sample.constraints_database (fun _ : Bool => ⟨Sample.createThing, none⟩)
    (List.replicate 30 [true, false]).flatten
  have hlength : (exec (Postgres.handle Sample.libraries) (committing Sample.libraries
      Sample.standingAuthority Sample.database fun _ : Bool => ⟨Sample.createThing, none⟩)
      (List.replicate 30 [true, false]).flatten).state.acts.length = 2 := by
    decide +kernel
  rw [← hpost, List.length_append] at hlength
  have hstart : Sample.database.acts.length = 1 := rfl
  obtain ⟨act, hact⟩ := List.length_eq_one_iff.mp (show post.length = 1 by omega)
  rw [hact] at hpost
  refine ⟨act, hpost.symm, hcut _ act ?_ List.prefix_rfl⟩
  rw [Made, ← hpost]
  exact List.prefix_rfl

end History

end Clients

end PowerfarmKernel
