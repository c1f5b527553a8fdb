import PowerfarmKernel.Kernel.Writes
import PowerfarmKernel.Ledger.Steady
import PowerfarmKernel.Service.Revocation

/-!
# A commit that could have happened at once

`AuthorityService.commit` performs some thirty operations on the database, and anything may
happen between two of them. When the last one inserts the Act, the whole call could have
been made at that moment: run there without interruption, it gives the same answer and
leaves the same database. Only the binding of the principal may have changed since it was
read.

The moment is the database the Act is inserted into. Whatever the client has read since it
found its cut in history, it would read there too, because nothing was committed in
between; what it had stored is stored; and where an answer might have been another, as when
an object was not there yet, the call has raised.
-/

namespace PowerfarmKernel

open Prog LedgerM Interleaving

theorem LedgerOp.IsSettled.isRead {o : LedgerOp} (h : o.IsSettled) : o.IsRead := by
  cases o <;> first | exact h | trivial

namespace Clients

variable {α β : Type} {P : Primitives} {u s t : Postgres}

/-! ### The moment -/

/-- **The moment of a commit**: the database an Act is inserted into. Before it, principals
are resolved as they would be then; and an Act decided at another cut is not inserted
then. -/
def moment (u : Postgres) : Moment LedgerOp Postgres where
  state := u
  window t := Postgres.Steady t u
  allowed t o := ∀ issuer subject, o = .resolvePrincipal issuer subject →
    t.resolvePrincipal issuer subject = u.resolvePrincipal issuer subject
  other o := ∀ act canon commandType, o = .commitAct act canon commandType →
    act.decisionCut ≠ u.historyCut

/-- All the history of the moment is there already. -/
def Reached (u s : Postgres) : Prop := ∀ x ∈ u.historyCut, s.HasAct x

theorem Reached.later (hs : Reached u s) (hst : Postgres.Steady s t) : Reached u t :=
  fun x hx => hst.toGrown.hasAct (hs x hx)

theorem Reached.acts_eq (hs : Reached u s) (hu : u.Constraints) (hsu : Postgres.Steady s u) :
    u.acts = s.acts :=
  hsu.toGrown.acts_eq_of_cut hu hs rfl

theorem other_of_isPlain {o : LedgerOp} (ho : o.IsPlain) : (moment u).other o := by
  rintro act canon commandType rfl
  exact ho.elim

section Rules

variable (hu : u.Constraints) {B : β → Prop} {Q : β → Postgres → Prop}

include hu

/-- **What depends on the Acts only** is answered as it would be at the moment. -/
theorem firm_settled {p : LedgerM α} {B : α → Prop} {Q : α → Postgres → Prop}
    (hs : Reached u s) (hp : p.Only LedgerOp.IsSettled) (hQ : ∀ a t, Reached u t → Q a t) :
    Firm (Postgres.drift P) (moment u) B Q p s := by
  refine Firm.of_only hp (fun o ho t ht hst hwindow => ?_) fun a t _ hst _ => hQ a t (hs.later hst)
  change Postgres.Steady (Postgres.handle P o t).2 u at hwindow
  rw [Postgres.handle_isRead ho.isRead] at hwindow
  exact hwindow.handle_eq ((hs.later hst).acts_eq hu hwindow) ht.2 ho

theorem bind_settled {p : LedgerM α} {f : α → LedgerM β} (hs : Reached u s)
    (hp : p.Only LedgerOp.IsSettled)
    (hf : ∀ a t, Reached u t → Firm (Postgres.drift P) (moment u) B Q (f a) t) :
    Firm (Postgres.drift P) (moment u) B Q (p >>= f) s :=
  Firm.seq (firm_settled hu hs hp hf)

omit hu

/-- An object that is not stored ends the call; one that is stored stays. -/
theorem bind_hasObject {x : Hash} {f : Bool → LedgerM β} (hs : Reached u s)
    (hmissing : Missed (moment u) B (f false))
    (hf : ∀ t, Reached u t → Firm (Postgres.drift P) (moment u) B Q (f true) t) :
    Firm (Postgres.drift P) (moment u) B Q (LedgerM.hasObject x >>= f) s := by
  refine Firm.bind_call fun t _ hst _ hwindow a ha => ?_
  change Postgres.Steady t u at hwindow
  rcases hfound : t.getObject x with _ | found
  · rw [Postgres.handle, hfound] at ha
    cases ha
    exact Or.inl hmissing
  · rw [Postgres.handle, hfound] at ha
    cases ha
    refine Or.inr ⟨true, ?_, rfl, hf t (hs.later hst)⟩
    change Postgres.handle P (.hasObject x) u = _
    rw [Postgres.handle, hwindow.getObject hfound]
    rfl

/-- What was stored is stored already at the moment. -/
theorem bind_putObject {x : Hash} {canon : Bytes} {kind : String} {f : Unit → LedgerM β}
    (hs : Reached u s)
    (hf : ∀ t, Reached u t → Firm (Postgres.drift P) (moment u) B Q (f ()) t) :
    Firm (Postgres.drift P) (moment u) B Q (LedgerM.putObject x canon kind >>= f) s := by
  refine Firm.bind_call fun t _ hst _ hwindow a ha => ?_
  change Postgres.Steady (Postgres.handle P (.putObject x canon kind) t).2 u at hwindow
  rcases hput : t.putObject x canon kind with e | t'
  · rw [Postgres.handle, hput] at ha
    cases ha
  · have hhandle : Postgres.handle P (.putObject x canon kind) t = (.ok (), t') := by
      rw [Postgres.handle, hput]
      rfl
    have hkept := Postgres.steady_handle P (.putObject x canon kind) t
    have hagain : Postgres.handle P (.putObject x canon kind) u = (.ok (), u) := by
      rw [hhandle] at hwindow
      rw [Postgres.handle, Postgres.Steady.putObject hput hwindow]
      rfl
    exact Or.inr ⟨(), hagain, rfl, hf _ ((hs.later hst).later hkept)⟩

end Rules

/-! ### The gate -/

section Gate

variable {c : Submission} {E : EvaluatedAction} {request : ActionRequest}

/-- A search whose tests depend on the Acts only. -/
theorem only_anyM_settled {f : α → LedgerM Bool} (hf : ∀ a, (f a).Only LedgerOp.IsSettled)
    (l : List α) : (l.anyM fun a => do
      let known ← f a
      return !known).Only LedgerOp.IsSettled :=
  CommitGate.only_anyM_not hf l

/-- **The Command a review names** is the one it names at the moment, if it names one. -/
theorem firm_reviewedCommand {payloadHash : Hash} (hs : Reached u s) :
    Firm (Postgres.drift P) (moment u) (fun target => target = none) (fun _ t => Reached u t)
      (CommitGate.reviewedCommand P payloadHash) s := by
  refine Firm.bind_call fun t _ hst _ hwindow a ha => ?_
  change Postgres.Steady t u at hwindow
  rcases hfound : t.getObject payloadHash with _ | found
  · rw [Postgres.handle, hfound] at ha
    cases ha
    exact Or.inl rfl
  · rw [Postgres.handle, hfound] at ha
    cases ha
    refine Or.inr ⟨some found.canon, ?_, rfl, ?_⟩
    · change Postgres.handle P (.objectCanon payloadHash) u = _
      rw [Postgres.handle, hwindow.getObject hfound]
      rfl
    · exact fun v _ htv => (hs.later hst).later htv

variable (hu : u.Constraints) {B : α → Prop}

include hu

/-- **The structural check** comes out as it would at the moment. -/
theorem firm_requireStructuralProof {command : Command} {commandHash : Hash} {actType : String}
    {authChain : List Hash} (hs : Reached u s) :
    Firm (Postgres.drift P) (moment u) (fun _ => False) (fun _ t => Reached u t)
      (CommitGate.requireStructuralProof P command commandHash actType authChain) s := by
  have hkept : ∀ (_ : Unit) t, (Postgres.drift P).inv t → (Postgres.drift P).rely s t →
      Reached u t := fun _ _ _ hst => hs.later hst
  rw [CommitGate.requireStructuralProof]
  split
  · refine Firm.bind_raiseWhen fun _ => Firm.bind ((firm_reviewedCommand hs).imp ?_) ?_
    · exact fun target t _ _ ht => Firm.raiseWhen fun _ v _ htv => ht.later htv
    · exact fun target hnone => Missed.raiseWhen hnone
  · refine bind_settled hu hs ?_ fun links t ht => ?_
    · exact .mapM (f := getAct) (fun _ => .call trivial) authChain
    dsimp only
    split
    · refine Firm.bind_raiseWhen fun _ => Firm.bind_raiseWhen fun _ => ?_
      -- A review that names no Command is taken for a review of another one.
      refine Firm.bind (B := fun elsewhere => elsewhere = true) ?_ ?_
      · refine Firm.anyM (fun act v _ htv => ?_) (fun _ v _ htv => ?_) _
        · refine Firm.bind ((firm_reviewedCommand (ht.later htv)).imp ?_) ?_
          · exact fun _ _ _ _ _ => Firm.pure fun _ _ _ => trivial
          · rintro target rfl
            exact ⟨by simp, rfl⟩
        · exact Firm.raiseWhen fun _ w _ hvw => (ht.later htv).later hvw
      · exact fun elsewhere htrue => Missed.raiseWhen htrue
    · split
      · exact Firm.pure fun v _ htv => ht.later htv
      · refine bind_settled hu ht (.call trivial) fun owned v hv => ?_
        exact Firm.raiseWhen fun _ w _ hvw => hv.later hvw

/-- **The checks of the gate** come out as they would at the moment. -/
theorem firm_checks (hs : Reached u s) :
    Firm (Postgres.drift P) (moment u) (fun _ => False) (fun _ t => Reached u t)
      (CommitGate.checks P c) s := by
  have hname : ∀ kind name cut, (LedgerM.registered kind name cut).Only LedgerOp.IsSettled :=
    fun _ _ _ => .call trivial
  rw [CommitGate.checks]
  refine Firm.bind_raiseWhen fun _ => Firm.bind_ofExcept fun commandHash _ => ?_
  refine Firm.bind_ofExcept fun contextHash _ => ?_
  refine bind_settled hu hs ?_ fun settled s hs => Firm.bind_raiseWhen fun _ => ?_
  · rw [CommitGate.alreadySettled]
    exact .ite (.bind (.call trivial) fun _ => .pure _) (.pure _)
  refine Firm.seq ((firm_requireStructuralProof hu hs).imp fun _ s _ _ hs => ?_)
  refine bind_settled hu hs (.call trivial) fun _ s hs => Firm.bind_raiseWhen fun _ => ?_
  refine bind_settled hu hs (hname _ _ _) fun _ s hs => Firm.bind_raiseWhen fun _ => ?_
  refine bind_settled hu hs (hname _ _ _) fun _ s hs => Firm.bind_raiseWhen fun _ => ?_
  refine Firm.bind_raiseWhen fun _ => ?_
  refine bind_settled hu hs (only_anyM_settled (fun _ => hname _ _ _) _) fun _ s hs => ?_
  refine Firm.bind_raiseWhen fun _ => ?_
  refine bind_settled hu hs (only_anyM_settled (fun _ => hname _ _ _) _) fun _ s hs => ?_
  refine Firm.bind_raiseWhen fun _ => bind_hasObject hs ?_ fun s hs => ?_
  · exact (Missed.raiseWhen rfl).bind (B := fun _ => False) fun _ hbad => hbad.elim
  refine Firm.bind_raiseWhen fun _ => ?_
  refine bind_settled hu hs (only_anyM_settled (fun _ => .call trivial) _) fun _ s hs => ?_
  exact Firm.bind_raiseWhen fun _ => Firm.pure fun t _ hst => hs.later hst

/-- **The gate up to its writes**. -/
theorem firm_head (hs : Reached u s) :
    Firm (Postgres.drift P) (moment u) (fun _ => False) (fun _ t => Reached u t)
      (CommitGate.head P c) s := by
  rw [CommitGate.head]
  refine Firm.bind_raiseWhen fun _ => Firm.bind_raiseWhen fun _ => ?_
  refine Firm.bind_ofExcept fun value _ => Firm.bind_ofExcept fun actHash _ => ?_
  refine bind_settled hu hs (.call trivial) fun existing s hs => ?_
  rcases existing with _ | act
  · refine Firm.seq ((firm_checks hu hs).imp fun hashes s _ _ hs => ?_)
    exact Firm.pure fun t _ hst => hs.later hst
  · exact Firm.pure fun t _ hst => hs.later hst

/-- **The gate** does what it would do at the moment. -/
theorem firm_gate (hs : Reached u s) :
    Firm (Postgres.drift P) (moment u) (fun _ => False) (fun _ t => Reached u t)
      (CommitGate.commit P c) s := by
  rw [CommitGate.commit_eq]
  refine Firm.seq ((firm_head hu hs).imp fun found s _ _ hs => ?_)
  rcases found with act | ⟨value, actHash, commandHash, contextHash⟩
  · exact Firm.pure fun t _ hst => hs.later hst
  rw [CommitGate.tail, CommitGate.write]
  refine Firm.bind_ofExcept fun commandCanon _ => bind_putObject hs fun s hs => ?_
  refine Firm.bind_ofExcept fun contextCanon _ => bind_putObject hs fun s hs => ?_
  refine Firm.mapError ?_ _
  refine Firm.bind_ofExcept fun canon _ => ?_
  refine Firm.call fun t _ hst _ hwindow r hr => ?_
  refine Or.inr ⟨?_, fun v _ htv => ?_⟩
  · -- An Act inserted by this very call would not be in the history of the moment.
    change Postgres.Steady (Postgres.handle P _ t).2 u at hwindow
    rcases hcommit : t.commitAct (CommitGate.actOf c actHash commandHash contextHash) canon
        c.command.commandType with e | ⟨r', t'⟩
    · rw [Postgres.handle, hcommit] at hr
      cases hr
    · rw [Postgres.handle, hcommit] at hr hwindow
      cases hr
      change Postgres.handle P (.commitAct _ canon c.command.commandType) u = _
      have hkept : Postgres.Steady t t' := by
        have := Postgres.steady_handle P (.commitAct (CommitGate.actOf c actHash commandHash
          contextHash) canon c.command.commandType) t
        rwa [Postgres.handle, hcommit] at this
      have hacts := (hs.later hst).acts_eq hu (hkept.trans hwindow)
      rw [Postgres.handle, Postgres.Steady.commitAct hcommit hwindow hacts]
      rfl
  · exact ((hs.later hst).later (Postgres.steady_handle P _ t)).later htv

omit hu

/-- **The gate misses the moment** when its Decision was taken at another cut. -/
theorem missed_gate (hcut : c.decision.cut ≠ u.historyCut) :
    Missed (moment u) (fun _ => True) (CommitGate.commit P c) := by
  refine Missed.of_only ?_ fun _ => trivial
  rw [CommitGate.commit_eq]
  refine .bind (CommitGate.only_head.mono fun _ ho => other_of_isPlain ho.isRead.isPlain) ?_
  rintro (act | ⟨value, actHash, commandHash, contextHash⟩)
  · exact .pure _
  · refine .bind (.ofExcept _) fun _ => .bind (.call (other_of_isPlain trivial)) fun _ => ?_
    refine .bind (.ofExcept _) fun _ => .bind (.call (other_of_isPlain trivial)) fun _ => ?_
    refine .mapError _ (.bind (.ofExcept _) fun canon => .call ?_)
    rintro act canon' commandType heq
    cases heq
    exact hcut

end Gate

/-! ### The service -/

section Service

variable {rootIdentityHash : Option Hash} {ruleNames : List String}
  {staticRules : Dict String Rule} {allow : Bool} {request : ActionRequest}
  {principal : Option RequestPrincipal} {command : Command} {cut registryCut : Cut}
  {E : EvaluatedAction}

variable (hu : u.Constraints)

include hu

/-- **Who asked** is who would have asked at the moment. -/
theorem firm_resolveRequester {performer : Identity} (hs : Reached u s) :
    Firm (Postgres.drift P) (moment u) (fun _ => False) (fun _ t => Reached u t)
      (IdentityService.resolveRequester allow performer principal cut) s := by
  rcases principal with _ | principal
  · exact firm_settled hu hs (.ite (.raise _) (.pure _)) fun _ _ ht => ht
  · rw [IdentityService.resolveRequester]
    refine Firm.bind_call fun t _ hst hallowed hwindow resolved hresolved => ?_
    have hsame := hallowed _ _ rfl
    refine Or.inr ⟨resolved, ?_, rfl, ?_⟩
    · exact Prod.ext (hsame.symm.trans hresolved) rfl
    · rcases resolved with _ | requesterHash
      · trivial
      · have ht : Reached u t := hs.later hst
        dsimp only
        split
        · exact Firm.pure fun v _ htv => ht.later htv
        · refine bind_settled hu ht (.call trivial) fun found v hv => ?_
          rcases found with _ | requester
          · trivial
          · exact Firm.pure fun w _ hvw => hv.later hvw

omit hu

theorem firm_validatePayload (hs : Reached u s) :
    Firm (Postgres.drift P) (moment u) (fun _ => False) (fun _ t => Reached u t)
      (AuthorityService.validatePayload P request) s := by
  rw [AuthorityService.validatePayload]
  rcases request.payload with _ | payload
  · refine bind_hasObject hs (Missed.raiseWhen rfl) fun s hs => ?_
    exact Firm.raiseWhen fun _ t _ hst => hs.later hst
  · exact Firm.bind_ofExcept fun _ _ => Firm.raiseWhen fun _ t _ hst => hs.later hst

include hu

theorem firm_validateRegistry {context : Context} (hs : Reached u s) :
    Firm (Postgres.drift P) (moment u) (fun _ => False) (fun _ t => Reached u t)
      (AuthorityService.validateRegistry request context registryCut) s := by
  refine firm_settled hu hs ?_ fun _ _ ht => ht
  refine .bind (.call trivial) fun _ => .bind (.raiseWhen _ _) fun _ => ?_
  refine .bind (.call trivial) fun _ => .bind (.raiseWhen _ _) fun _ => ?_
  exact .forM (f := AuthorityService.requireContextType registryCut)
    (fun _ => .bind (.call trivial) fun _ => .raiseWhen _ _) _

/-- **An evaluation at the history of the moment** comes out as it would then, once its cut
has been found in history. -/
theorem firm_evaluateAt :
    Firm (Postgres.drift P) (moment u) (fun _ => False) (fun _ t => Reached u t)
      (AuthorityService.evaluateAt P
        ⟨ConfiguredRuleResolver.resolve rootIdentityHash ruleNames staticRules, allow⟩ request
        principal command u.historyCut registryCut) s := by
  rw [AuthorityService.evaluateAt]
  refine Firm.bind_call fun t ht hst _ hwindow closed hclosed => ?_
  change Postgres.Steady t u at hwindow
  cases hclosed
  rcases hanswer : t.isClosedCut u.historyCut with _ | _
  · exact Or.inl trivial
  -- The history of the moment is there, and nothing is committed until then.
  have hs : Reached u t := fun x hx => Postgres.hasAct_of_isClosedCut ht.1 hanswer hx
  refine Or.inr ⟨true, ?_, rfl, ?_⟩
  · have := hwindow.handle_eq (P := P) (hs.acts_eq hu hwindow) ht.2
      (o := .isClosedCut u.historyCut) trivial
    rw [Postgres.handle, Postgres.handle, hanswer] at this
    exact this
  refine Firm.bind_raiseWhen fun _ => ?_
  replace hs := hs.later (Postgres.steady_handle P (.isClosedCut u.historyCut) t)
  refine bind_settled hu hs (.call trivial) fun _ s hs => Firm.bind_raiseWhen fun _ => ?_
  refine bind_settled hu hs ?_ fun identity s hs => Firm.bind_raiseWhen fun _ => ?_
  · refine .bind (.call trivial) fun found => ?_
    rcases found with _ | identity
    · exact .raise _
    · exact .pure _
  refine Firm.seq ((firm_resolveRequester hu hs).imp fun requester s _ _ hs => ?_)
  refine Firm.bind_ofExcept fun context _ => ?_
  refine Firm.seq ((firm_validatePayload hs).imp fun _ s _ _ hs => ?_)
  refine Firm.seq ((firm_validateRegistry hu hs).imp fun _ s _ _ hs => ?_)
  refine bind_settled hu hs (.bind (.call trivial) fun _ => .ofExcept _) fun rules s hs => ?_
  refine Firm.bind_raiseWhen fun _ => ?_
  refine bind_settled hu hs (only_anyM_settled (fun _ => .call trivial) _) fun _ s hs => ?_
  refine Firm.bind_raiseWhen fun _ => Firm.bind_ofExcept fun decision _ => ?_
  exact Firm.pure fun t _ hst => hs.later hst

/-- **The end of a commit** comes out as it would at the moment. -/
theorem firm_commitEvaluated (hs : Reached u s) :
    Firm (Postgres.drift P) (moment u) (fun _ => True) (fun _ _ => True)
      (AuthorityService.commitEvaluated P request E) s := by
  have hgate : ∀ {s}, Reached u s → Firm (Postgres.drift P) (moment u)
      (fun _ => True) (fun _ _ => True) (CommitGate.commit P (AuthorityService.submission request E)
        >>= fun act => if act.hash ∈ u.historyCut then
          pure (AuthorityService.replay E E.decision.outcome act, act) else pure (E, act)) s := by
    intro s hs
    refine Firm.seq ((firm_gate hu hs).imp fun act t _ _ _ => ?_)
    split
    · exact Firm.pure fun _ _ _ => trivial
    · exact Firm.pure fun _ _ _ => trivial
  rw [AuthorityService.commitEvaluated]
  refine Firm.bind_call fun t ht hst _ hwindow cutBefore hcut => ?_
  cases hcut
  change Postgres.Steady t u at hwindow
  have ht' : Reached u t := hs.later hst
  have hsame : u.historyCut = t.historyCut := historyCut_eq (ht'.acts_eq hu hwindow)
  refine Or.inr ⟨u.historyCut, rfl, by rw [hsame], Firm.bind_raiseWhen fun _ => ?_⟩
  rw [← hsame, AuthorityService.storePayload]
  replace ht' := ht'.later (Postgres.steady_handle P .historyCut t)
  rcases request.payload with _ | payload
  · exact hgate ht'
  · dsimp only
    rw [LawfulMonad.bind_assoc]
    exact Firm.bind_ofExcept fun canon _ => bind_putObject ht' fun _ hv => hgate hv

theorem firm_admitEvaluated (hs : Reached u s) :
    Firm (Postgres.drift P) (moment u) (fun _ => True) (fun _ _ => True)
      (AuthorityService.admitEvaluated P request E) s := by
  rw [AuthorityService.admitEvaluated]
  refine Firm.bind_raiseWhen fun _ => ?_
  split
  · refine bind_settled hu hs ?_ fun settled s hs => ?_
    · refine .bind (.ofExcept _) fun commandHash => .bind (.call trivial) fun owned => ?_
      dsimp only
      rcases List.find? _ _ with _ | act
      · exact .pure _
      · exact .bind (.raiseWhen _ _) fun _ => .bind (.ofExcept _) fun _ =>
          .bind (.raiseWhen _ _) fun _ => .pure _
    rcases settled with _ | result
    · exact firm_commitEvaluated hu hs
    · exact Firm.pure fun _ _ _ => trivial
  · exact firm_commitEvaluated hu hs

omit hu

/-- A part that admits nothing misses every moment. -/
theorem missed_bind {B : β → Prop} {p : LedgerM α} {f : α → LedgerM β}
    (hp : p.Only LedgerOp.IsPlain) (hf : ∀ a, Missed (moment u) B (f a)) :
    Missed (moment u) B (p >>= f) :=
  Missed.bind_only (hp.mono fun _ ho => other_of_isPlain ho) hf

/-- **An evaluation at another cut** decides at that cut. -/
theorem missed_evaluateAt {service : AuthorityService} (hcut : cut ≠ u.historyCut) :
    Missed (moment u) (fun E => E.decision.cut ≠ u.historyCut)
      (AuthorityService.evaluateAt P service request principal command cut registryCut) := by
  have hplain : ∀ {γ : Type} {p : LedgerM γ}, p.Only LedgerOp.IsRead → p.Only LedgerOp.IsPlain :=
    fun hp => hp.mono fun _ ho => ho.isPlain
  refine missed_bind (.call trivial) fun _ => missed_bind (.raiseWhen _ _) fun _ => ?_
  refine missed_bind (.call trivial) fun _ => missed_bind (.raiseWhen _ _) fun _ => ?_
  refine missed_bind (hplain (AuthorityService.only_performer _ _)) fun identity => ?_
  refine missed_bind (.raiseWhen _ _) fun _ => ?_
  refine missed_bind (hplain (IdentityService.only_resolveRequester _ _ _ _)) fun requester => ?_
  refine missed_bind (.ofExcept _) fun context => ?_
  refine missed_bind (hplain (AuthorityService.only_validatePayload _)) fun _ => ?_
  refine missed_bind (hplain (AuthorityService.only_validateRegistry _ _ _)) fun _ => ?_
  refine missed_bind (hplain (service.rules.reads _ _ _ _)) fun rules => ?_
  refine missed_bind (.raiseWhen _ _) fun _ => ?_
  refine missed_bind (CommitGate.only_anyM_not (fun _ => .call trivial) _) fun _ => ?_
  refine missed_bind (.raiseWhen _ _) fun _ => ?_
  rcases hdecision : authorize identity command context cut registryCut rules with e | decision
  · trivial
  · change decision.cut ≠ u.historyCut
    rwa [(authorize_ok hdecision).1]

/-- **What follows an evaluation** commits at the cut of its Decision. -/
theorem missed_admitEvaluated (hcut : E.decision.cut ≠ u.historyCut) :
    Missed (moment u) (fun _ => True) (AuthorityService.admitEvaluated P request E) := by
  have hcommit : Missed (moment u) (fun _ => True)
      (AuthorityService.commitEvaluated P request E) := by
    refine missed_bind (.call trivial) fun _ => missed_bind (.raiseWhen _ _) fun _ => ?_
    refine missed_bind (AuthorityService.only_storePayload _) fun _ => ?_
    refine (missed_gate (c := AuthorityService.submission request E) hcut).bind fun act _ => ?_
    split
    · trivial
    · trivial
  refine missed_bind (.raiseWhen _ _) fun _ => ?_
  split
  · refine missed_bind ((AuthorityService.only_settledConsequence E).mono
      fun _ ho => ho.isPlain) fun settled => ?_
    rcases settled with _ | result
    · exact hcommit
    · trivial
  · exact hcommit

include hu

/-- **A commit** does what it would do at the moment, or misses it. -/
theorem firm_commit :
    Firm (Postgres.drift P) (moment u) (fun _ => True) (fun _ _ => True)
      (AuthorityService.commit P
        ⟨ConfiguredRuleResolver.resolve rootIdentityHash ruleNames staticRules, allow⟩ request
        principal) s := by
  rw [AuthorityService.commit, AuthorityService.evaluate]
  refine Firm.bind (B := fun E => E.decision.cut ≠ u.historyCut)
    (Firm.bind_ofExcept fun command _ => Firm.bind_call fun t _ _ _ _ currentCut hcurrent => ?_)
    fun E hE => missed_admitEvaluated hE
  cases hcurrent
  by_cases hdecided : request.historyCut.getD t.historyCut = u.historyCut
  · refine Or.inr ⟨u.historyCut, rfl, ?_, ?_⟩
    · -- A cut that the request names does not depend on the current history.
      dsimp only
      rw [hdecided]
      rcases hnamed : request.historyCut with _ | named
      · rfl
      · rw [hnamed] at hdecided
        rw [Option.getD_some, show named = u.historyCut from hdecided]
    · dsimp only
      rw [hdecided]
      refine ((firm_evaluateAt hu).imp fun E t _ _ ht => ?_).imp_bad fun _ hfalse => hfalse.elim
      exact firm_admitEvaluated hu ht
  · exact Or.inl (missed_evaluateAt hdecided)

end Service

/-! ### The last thing a commit does -/

section Last

variable {c : Submission} {request : ActionRequest} {principal : Option RequestPrincipal}
  {E : EvaluatedAction} {service : AuthorityService}

/-- What the gate returns is the Act the store has answered with. -/
def Placed : (o : LedgerOp) → o.Ret → Act → Prop
  | .commitAct _ _ _, r, act => act = r
  | _, _, _ => True

/-- So is the Act a commit returns. -/
def Answered (o : LedgerOp) (r : o.Ret) (result : EvaluatedAction × Act) : Prop :=
  Placed o r result.2

theorem not_not_isPlain (o : LedgerOp) (ho : o.IsPlain) : ¬¬o.IsPlain := not_not.mpr ho

/-- **The gate ends in the store's answer.** -/
theorem closing_gate : Closing (fun o => ¬o.IsPlain) Placed (CommitGate.commit P c) := by
  rw [CommitGate.commit_eq]
  refine .bind (CommitGate.only_head.mono fun _ ho => ho.isRead.isPlain) not_not_isPlain ?_
  rintro (act | ⟨value, actHash, commandHash, contextHash⟩)
  · trivial
  · refine .bind (.ofExcept _) not_not_isPlain fun _ => ?_
    refine .bind (.call trivial) not_not_isPlain fun _ => ?_
    refine .bind (.ofExcept _) not_not_isPlain fun _ => ?_
    refine .bind (.call trivial) not_not_isPlain fun _ => .mapError ?_ _
    refine .bind (.ofExcept _) not_not_isPlain fun canon => ?_
    exact Closing.call (o := LedgerOp.commitAct _ canon _) fun _ _ => rfl

theorem closing_commitEvaluated : Closing (fun o => ¬o.IsPlain) Answered
    (AuthorityService.commitEvaluated P request E) := by
  refine .bind (.call trivial) not_not_isPlain fun cutBefore => ?_
  refine .bind (.raiseWhen _ _) not_not_isPlain fun _ => ?_
  refine .bind (AuthorityService.only_storePayload _) not_not_isPlain fun _ => ?_
  refine closing_gate.bind_ret fun act => ?_
  split
  · exact ⟨_, rfl, fun _ _ h => h⟩
  · exact ⟨_, rfl, fun _ _ h => h⟩

/-- **A commit ends in the store's answer.** -/
theorem closing_commit : Closing (fun o => ¬o.IsPlain) Answered
    (AuthorityService.commit P service request principal) := by
  refine .bind ((AuthorityService.only_evaluate request principal).mono fun _ ho => ho.isPlain)
    not_not_isPlain fun E => ?_
  refine .bind (.raiseWhen _ _) not_not_isPlain fun _ => ?_
  split
  · refine .bind ((AuthorityService.only_settledConsequence E).mono fun _ ho => ho.isPlain)
      not_not_isPlain fun settled => ?_
    rcases settled with _ | result
    · exact closing_commitEvaluated
    · trivial
  · exact closing_commitEvaluated

end Last

/-! ### Every schedule -/

section Schedules

open Runs

variable {ι : Type} [DecidableEq ι] {c : Config LedgerOp.Ret Raised Postgres ι α} {i : ι}
  {act : Act}

/-- **A step that admits an Act**, with the answer the client gets. -/
theorem Admits.answered (h : Admits P c i act) :
    ∃ canon commandType k, c.rest i = .step (.commitAct act canon commandType) k ∧
      Postgres.handle P (.commitAct act canon commandType) c.state =
        (.ok act, (next (Postgres.handle P) c i).state) ∧
      (next (Postgres.handle P) c i).rest i = k (.ok act) ∧
      Postgres.Inserted c.state (next (Postgres.handle P) c i).state act := by
  obtain ⟨canon, commandType, hperforms, hinserted⟩ := h.inserted
  rw [Performs] at hperforms
  rcases hrest : c.rest i with a | e | ⟨o, k⟩
  · rw [hrest] at hperforms
    cases hperforms
  · rw [hrest] at hperforms
    cases hperforms
  rw [hrest] at hperforms
  cases hperforms
  have hnext : next (Postgres.handle P) c i =
      ⟨(Postgres.handle P (.commitAct act canon commandType) c.state).2, Function.update c.rest i
        (k (Postgres.handle P (.commitAct act canon commandType) c.state).1)⟩ := by
    rw [next, hrest]
  have hanswer : (Postgres.handle P (.commitAct act canon commandType) c.state).1 = .ok act := by
    rw [hnext] at hinserted
    dsimp only at hinserted
    have hgrown := congrArg List.length hinserted.acts
    rw [List.length_append, List.length_singleton] at hgrown
    rcases hcommit : c.state.commitAct act canon commandType with e | ⟨r, t⟩
    · rw [Postgres.handle, hcommit] at hgrown
      change c.state.acts.length = _ at hgrown
      omega
    · rw [Postgres.handle, hcommit] at hgrown ⊢
      rcases Postgres.commitAct_ok hcommit with ⟨-, rfl⟩ | ⟨rfl, -⟩
      · change c.state.acts.length = _ at hgrown
        omega
      · rfl
  refine ⟨canon, commandType, k, rfl, ?_, ?_, hinserted⟩
  · rw [hnext, ← hanswer]
  · rw [hnext, hanswer]
    exact Function.update_self ..

/-- **A commit that admits an Act could have happened at once.** Any number of clients share
a database; one of them runs `AuthorityService.commit`, the others whatever they like, and
their steps interleave in any order. When a step of this client admits an Act, the whole
call, run without interruption in the database right before that step, returns the same
evaluation and the same Act, and leaves exactly the database the step leaves – as long as
the principals it has resolved on the way are bound as they were. -/
theorem commit_atomic (P : Primitives) (rootIdentityHash : Option Hash) (ruleNames : List String)
    (staticRules : Dict String Rule) (allow : Bool) (request : ActionRequest)
    (principal : Option RequestPrincipal)
    (c : Config LedgerOp.Ret Raised Postgres ι (EvaluatedAction × Act))
    (hdb : c.state.Constraints) (hdefined : c.state.Defined) (i : ι)
    (hclient : c.rest i = AuthorityService.commit P
      ⟨ConfiguredRuleResolver.resolve rootIdentityHash ruleNames staticRules, allow⟩ request
      principal) (earlier : List ι) (act : Act)
    (hadmits : Admits P (exec (Postgres.handle P) c earlier) i act)
    (hbound : ∀ before, Made earlier before i → ∀ issuer subject,
      Performs (exec (Postgres.handle P) c before) i (.resolvePrincipal issuer subject) →
        (exec (Postgres.handle P) c before).state.resolvePrincipal issuer subject =
          (exec (Postgres.handle P) c earlier).state.resolvePrincipal issuer subject) :
    ∃ E, (AuthorityService.commit P
          ⟨ConfiguredRuleResolver.resolve rootIdentityHash ruleNames staticRules, allow⟩ request
          principal).run (Postgres.handle P) (exec (Postgres.handle P) c earlier).state =
        (.ok (E, act), (next (Postgres.handle P) (exec (Postgres.handle P) c earlier) i).state) ∧
      (next (Postgres.handle P) (exec (Postgres.handle P) c earlier) i).rest i =
        .ret (E, act) := by
  have hinv : (Postgres.drift P).inv c.state := ⟨hdb, hdefined⟩
  have hinv' := exec_inv_of_drift (Postgres.drift P) hinv earlier
  obtain ⟨canon, commandType, k, hrest, hanswer, hnext, hinserted⟩ := hadmits.answered
  have hcut := hinserted.decisionCut hinv'.1
  have hsteps : ∀ before, Made earlier before i → ∀ o,
      Performs (exec (Postgres.handle P) c before) i o →
        (moment (exec (Postgres.handle P) c earlier).state).allowed
          (exec (Postgres.handle P) c before).state o ∧
        (moment (exec (Postgres.handle P) c earlier).state).window
          (next (Postgres.handle P) (exec (Postgres.handle P) c before) i).state := by
    intro before hmade o ho
    refine ⟨fun issuer subject heq => hbound before hmade issuer subject (heq ▸ ho), ?_⟩
    have hlast : exec (Postgres.handle P) c (before ++ [i]) =
        next (Postgres.handle P) (exec (Postgres.handle P) c before) i := exec_concat
    rw [← hlast]
    exact exec_rely (Postgres.drift P) hinv hmade
  have hfirm := exec_firm (F := Postgres.drift P) hinv
    (by rw [hclient]; exact firm_commit hinv'.1) hsteps
  have hclosing : Closing (fun o => ¬o.IsPlain) Answered
      ((exec (Postgres.handle P) c earlier).rest i) :=
    Closing.rest_exec (by rw [hclient]; exact closing_commit) earlier
  rw [hrest] at hfirm hclosing
  obtain ⟨⟨E, placed⟩, hret, hplaced⟩ := hclosing.1 id act
  rw [show placed = act from hplaced] at hret
  rcases hfirm with hmissed | ⟨-, hrun⟩
  · exact absurd hcut (hmissed.1 act canon commandType rfl)
  · refine ⟨E, ?_, hnext.trans hret⟩
    rw [← hclient]
    refine hrun.trans ?_
    change (k (Postgres.handle P _ (exec (Postgres.handle P) c earlier).state).1).run _
      (Postgres.handle P _ (exec (Postgres.handle P) c earlier).state).2 = _
    rw [hanswer]
    dsimp only
    rw [hret]
    rfl

/-- The clients of two runs: both create the same thing. -/
abbrev creators : Config LedgerOp.Ret Raised Postgres Bool (EvaluatedAction × Act) :=
  committing Sample.libraries Sample.authority Sample.database fun _ => ⟨Sample.createThing, none⟩

/-- One of them begins, and the other is about to have its Act admitted. -/
def interrupted : List Bool := List.replicate 3 false ++ List.replicate 30 true

theorem defined_database : Sample.database.Defined := by
  simp only [Postgres.Defined, ← Option.isSome_iff_exists]
  decide +kernel

theorem length_interrupted :
    (exec (Postgres.handle Sample.libraries) creators interrupted).state.acts.length = 1 ∧
      (next (Postgres.handle Sample.libraries)
        (exec (Postgres.handle Sample.libraries) creators interrupted) true).state.acts.length
        = 2 := by
  decide +kernel

/-! ### One call after another -/

theorem only_gate_keepsBindings (c : Submission) :
    (CommitGate.commit P c).Only LedgerOp.KeepsBindings := by
  rw [CommitGate.commit_eq]
  refine .bind (CommitGate.only_head.mono fun _ ho => ho.isRead.isPlain.keepsBindings) ?_
  rintro (act | ⟨value, actHash, commandHash, contextHash⟩)
  · exact .pure _
  · refine .bind (.ofExcept _) fun _ => .bind (.call trivial) fun _ => ?_
    refine .bind (.ofExcept _) fun _ => .bind (.call trivial) fun _ => ?_
    exact .mapError _ (.bind (.ofExcept _) fun _ => .call trivial)

/-- **A commit binds nobody.** -/
theorem only_commit_keepsBindings (service : AuthorityService) (request : ActionRequest)
    (principal : Option RequestPrincipal) :
    (AuthorityService.commit P service request principal).Only LedgerOp.KeepsBindings := by
  have hend : ∀ E, (AuthorityService.commitEvaluated P request E).Only LedgerOp.KeepsBindings := by
    intro E
    refine .bind (.call trivial) fun _ => .bind (.raiseWhen _ _) fun _ => ?_
    refine .bind ((AuthorityService.only_storePayload _).mono fun _ ho => ho.keepsBindings)
      fun _ => .bind (only_gate_keepsBindings _) fun act => ?_
    exact .ite (.pure _) (.pure _)
  refine .bind ((AuthorityService.only_evaluate _ _).mono fun _ ho => ho.isPlain.keepsBindings)
    fun E => .bind (.raiseWhen _ _) fun _ => ?_
  refine .ite (.bind ((AuthorityService.only_settledConsequence E).mono
    fun _ ho => ho.isPlain.keepsBindings) fun settled => ?_) (hend E)
  rcases settled with _ | result
  · exact hend E
  · exact .pure _

/-- **Clients that bind nobody** find every principal bound as it was. -/
theorem resolvePrincipal_exec (honly : ∀ i, (c.rest i).Only LedgerOp.KeepsBindings)
    {before after : List ι} (hpre : before <+: after) (issuer subject : String) :
    (exec (Postgres.handle P) c before).state.resolvePrincipal issuer subject =
      (exec (Postgres.handle P) c after).state.resolvePrincipal issuer subject := by
  have hbindings : (exec (Postgres.handle P) c after).state.principalBindings =
      (exec (Postgres.handle P) c before).state.principalBindings := by
    refine exec_rel_of_only (R := fun s t : Postgres =>
      t.principalBindings = s.principalBindings) (fun _ => rfl) ?_ ?_ honly hpre
    · exact fun h h' => Eq.trans h' h
    · exact fun _ ho s => Postgres.handle_principalBindings ho s
  rw [Postgres.resolvePrincipal, Postgres.resolvePrincipal, hbindings]

/-- **Calls made one after another**: a database to which whole calls of
`AuthorityService.commit` were made, each without interruption and each admitting a new Act,
and between them objects were stored. The list names the calls, in their order, with the
Acts they admitted. -/
inductive Serial (P : Primitives) (service : AuthorityService) (calls : ι → Call)
    (db : Postgres) : List (ι × Act) → Postgres → Prop
  | start : Serial P service calls db [] db
  | store {made : List (ι × Act)} {s t : Postgres} {h : Hash} {canon : Bytes} {kind : String}
      (hs : Serial P service calls db made s) (hput : s.putObject h canon kind = .ok t) :
      Serial P service calls db made t
  | commit {made : List (ι × Act)} {s t : Postgres} {i : ι} {E : EvaluatedAction} {act : Act}
      (hs : Serial P service calls db made s)
      (hrun : (AuthorityService.commit P service (calls i).request (calls i).principal).run
        (Postgres.handle P) s = (.ok (E, act), t))
      (hnew : t.acts = s.acts ++ [act]) : Serial P service calls db (made ++ [(i, act)]) t

/-- A creator whose call was interrupted by the other could have made it at once. -/
theorem commit_atomic_interrupted : ∃ E act,
    (AuthorityService.commit Sample.libraries Sample.authority Sample.createThing none).run
        (Postgres.handle Sample.libraries)
        (exec (Postgres.handle Sample.libraries) creators interrupted).state =
      (.ok (E, act), (next (Postgres.handle Sample.libraries)
        (exec (Postgres.handle Sample.libraries) creators interrupted) true).state) := by
  obtain ⟨hbefore, hafter⟩ := length_interrupted
  obtain ⟨act, hadmits⟩ := exists_admits (hafter.trans (congrArg (· + 1) hbefore.symm))
  obtain ⟨E, hrun, -⟩ := commit_atomic Sample.libraries (some Sample.root.hash)
    [ConfiguredRuleResolver.rootAuthorityName] Dict.empty true Sample.createThing none creators
    Sample.constraints_database defined_database true rfl interrupted act hadmits
    fun before hmade issuer subject _ => resolvePrincipal_exec
      (fun _ => only_commit_keepsBindings Sample.authority _ _) hmade.earlier issuer subject
  exact ⟨E, act, hrun⟩

/-- **What clients that commit at the same time bring about** could have been brought about
by one call after another. Whatever the schedule, there is an order of those calls that
admitted an Act, each call once, such that making them in this order without interruption
leaves exactly the same database; each of these clients has got the answer it got there;
and the history is the old one and their Acts in this order. -/
theorem commits_serial (P : Primitives) (rootIdentityHash : Option Hash) (ruleNames : List String)
    (staticRules : Dict String Rule) (allow : Bool) (db : Postgres) (hdb : db.Constraints)
    (hdefined : db.Defined) (calls : ι → Call) (schedule : List ι) :
    ∃ made : List (ι × Act),
      Serial P ⟨ConfiguredRuleResolver.resolve rootIdentityHash ruleNames staticRules, allow⟩ calls
        db made (exec (Postgres.handle P) (committing P
          ⟨ConfiguredRuleResolver.resolve rootIdentityHash ruleNames staticRules, allow⟩ db calls)
          schedule).state ∧
      (made.map Prod.fst).Nodup ∧
      (exec (Postgres.handle P) (committing P
        ⟨ConfiguredRuleResolver.resolve rootIdentityHash ruleNames staticRules, allow⟩ db calls)
        schedule).state.acts = db.acts ++ made.map Prod.snd ∧
      ∀ i act, (i, act) ∈ made → ∃ E, (exec (Postgres.handle P) (committing P
        ⟨ConfiguredRuleResolver.resolve rootIdentityHash ruleNames staticRules, allow⟩ db calls)
        schedule).rest i = .ret (E, act) := by
  set service : AuthorityService :=
    ⟨ConfiguredRuleResolver.resolve rootIdentityHash ruleNames staticRules, allow⟩
  set c := committing P service db calls
  have honly : ∀ i, (c.rest i).Only LedgerOp.KeepsBindings := fun i =>
    only_commit_keepsBindings service _ _
  induction schedule using List.reverseRecOn with
  | nil => exact ⟨[], .start, List.nodup_nil, (List.append_nil _).symm, fun _ _ h => by cases h⟩
  | append_singleton schedule j ih =>
    obtain ⟨made, hserial, hnodup, hacts, hreturned⟩ := ih
    have hlast : exec (Postgres.handle P) c (schedule ++ [j]) =
        next (Postgres.handle P) (exec (Postgres.handle P) c schedule) j := exec_concat
    rw [hlast]
    set d := exec (Postgres.handle P) c schedule
    -- A client that has returned is left as it is.
    have hkept : ∀ i act, (i, act) ∈ made → ∃ E,
        (next (Postgres.handle P) d j).rest i = .ret (E, act) := by
      intro i act hmem
      obtain ⟨E, hE⟩ := hreturned i act hmem
      refine ⟨E, ?_⟩
      by_cases hij : i = j
      · subst hij
        rw [next, hE]
        exact hE
      · rw [next_rest_of_ne hij, hE]
    rcases next_cases (Postgres.handle P) d j with heq | ⟨o, k, hrest, heq⟩
    · rw [heq] at hkept ⊢
      exact ⟨made, hserial, hnodup, hacts, hkept⟩
    have ho : o.KeepsBindings := by
      have := exec_only (h := Postgres.handle P) honly schedule j
      rw [hrest] at this
      exact this.1
    have hstate : (next (Postgres.handle P) d j).state = (Postgres.handle P o d.state).2 := by
      rw [heq]
    rcases Postgres.handle_cases_of_keepsBindings (P := P) ho d.state with hsame |
      ⟨h, canon, kind, hput⟩ | ⟨act, canon, commandType, rfl, hinserted⟩
    · rw [hstate, hsame]
      exact ⟨made, hserial, hnodup, hacts, hkept⟩
    · rw [hstate]
      refine ⟨made, .store hserial hput, hnodup, ?_, hkept⟩
      rw [(Postgres.putObject_ok hput).acts]
      exact hacts
    · rw [← hstate] at hinserted
      have hadmits : Admits P d j act := hinserted.acts
      obtain ⟨E, hrun, hret⟩ := commit_atomic P rootIdentityHash ruleNames staticRules allow
        (calls j).request (calls j).principal c hdb hdefined j rfl schedule act hadmits
        fun before hmade issuer subject _ =>
          resolvePrincipal_exec honly hmade.earlier issuer subject
      -- A client commits once: it has returned then.
      have hfirst : j ∉ made.map Prod.fst := by
        intro hmem
        obtain ⟨⟨i, a⟩, hfound, rfl⟩ := List.mem_map.mp hmem
        obtain ⟨E', hE'⟩ := hreturned i a hfound
        rw [hrest] at hE'
        cases hE'
      refine ⟨made ++ [(j, act)], .commit hserial hrun hinserted.acts, ?_, ?_, ?_⟩
      · rw [List.map_append]
        exact List.nodup_append.mpr ⟨hnodup, List.nodup_singleton _, fun i hi j' hj' heq => by
          rw [heq, List.mem_singleton.mp hj'] at hi
          exact hfirst hi⟩
      · rw [hinserted.acts, hacts, List.map_append, List.append_assoc]
        rfl
      · intro i a hmem
        rcases List.mem_append.mp hmem with hmem | hmem
        · exact hkept i a hmem
        · cases List.mem_singleton.mp hmem
          exact ⟨E, hret⟩

/-- The run of the two creators is one call, made by one of them. -/
theorem commits_serial_interrupted : ∃ i act,
    Serial Sample.libraries Sample.authority (fun _ : Bool => ⟨Sample.createThing, none⟩)
      Sample.database [(i, act)]
      (exec (Postgres.handle Sample.libraries) creators (interrupted ++ [true])).state := by
  have hlength : (exec (Postgres.handle Sample.libraries) creators
      (interrupted ++ [true])).state.acts.length = 2 := by
    have hlast : exec (Postgres.handle Sample.libraries) creators (interrupted ++ [true]) =
        next (Postgres.handle Sample.libraries)
          (exec (Postgres.handle Sample.libraries) creators interrupted) true := exec_concat
    rw [hlast]
    exact length_interrupted.2
  generalize interrupted ++ [true] = schedule at hlength ⊢
  obtain ⟨made, hserial, -, hacts, -⟩ := commits_serial Sample.libraries (some Sample.root.hash)
    [ConfiguredRuleResolver.rootAuthorityName] Dict.empty true Sample.database
    Sample.constraints_database defined_database (fun _ : Bool => ⟨Sample.createThing, none⟩)
    schedule
  rw [show (exec (Postgres.handle Sample.libraries) creators schedule).state.acts
      = Sample.database.acts ++ made.map Prod.snd from hacts, List.length_append,
    List.length_map] at hlength
  have hstart : Sample.database.acts.length = 1 := rfl
  obtain ⟨⟨i, act⟩, rfl⟩ := List.length_eq_one_iff.mp (show made.length = 1 by omega)
  exact ⟨i, act, hserial⟩

end Schedules

end Clients

end PowerfarmKernel
