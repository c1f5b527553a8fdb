import PowerfarmKernel.Kernel.History

/-!
# What an Act says of its outcome

An Act does not record the outcome of the Decision it was admitted under. For most Act types
it need not: the table of `PowerfarmKernel.permittedOutcomes` leaves them one. A resolution
is admitted under `allow` and under `deny`, and nothing it stores tells which
(`PowerfarmKernel.CommitGate.commit_withOutcome`): against any store, the two calls are one
program. `PowerfarmKernel.CommitGate.outcomeShows_iff` draws the line there.
-/

namespace PowerfarmKernel

open Prog LedgerM

/-- The same call, decided otherwise. -/
def Submission.withOutcome (c : Submission) (outcome : DecisionKind) (reason : String) :
    Submission :=
  { c with decision := { c.decision with outcome := outcome, reason := reason } }

/-- **An Act type with more than one permitted outcome is a resolution.** -/
theorem permittedOutcomes_eq_singleton {actType : String} (h : actType ≠ "AuthorizationResolved")
    {outcome : DecisionKind} (hpermitted : outcome ∈ permittedOutcomes actType) :
    permittedOutcomes actType = [outcome] := by
  rw [permittedOutcomes] at hpermitted ⊢
  split
  · rename_i hrequested
    rw [if_pos hrequested] at hpermitted
    rw [List.mem_singleton.mp hpermitted]
  · rename_i hrequested
    rw [if_neg hrequested] at hpermitted
    split
    · rename_i hdenied
      rw [if_pos hdenied] at hpermitted
      rw [List.mem_singleton.mp hpermitted]
    · rename_i hdenied
      rw [if_neg hdenied, if_neg h] at hpermitted
      rw [List.mem_singleton.mp hpermitted, consequentialOutcomes]

theorem mem_permittedOutcomes_resolved {outcome : DecisionKind} :
    outcome ∈ permittedOutcomes "AuthorizationResolved" ↔ outcome = .allow ∨ outcome = .deny := by
  simp [permittedOutcomes]

namespace CommitGate

variable {P : Primitives} {σ : Type} {h : Handler LedgerOp.Ret Raised σ} {s t : σ}
  {c : Submission} {a : Act}

/-- **A call whose outcome is replaced by another permitted one is the same program.** -/
theorem commit_withOutcome {outcome : DecisionKind} (reason : String)
    (hpermitted : c.decision.outcome ∈ permittedOutcomes c.actType)
    (hpermitted' : outcome ∈ permittedOutcomes c.actType) :
    commit P (c.withOutcome outcome reason) = commit P c := by
  have hfresh : ∀ value actHash,
      commitFresh P (c.withOutcome outcome reason) value actHash =
        commitFresh P c value actHash := by
    intro value actHash
    have hraise : (raiseWhen ((c.withOutcome outcome reason).decision.outcome ∉
          permittedOutcomes (c.withOutcome outcome reason).actType)
          (commitError (outcomeRefusal (c.withOutcome outcome reason).actType
            (c.withOutcome outcome reason).decision.outcome)) : LedgerM Unit)
        = raiseWhen (c.decision.outcome ∉ permittedOutcomes c.actType)
          (commitError (outcomeRefusal c.actType c.decision.outcome)) :=
      (if_neg (not_not.mpr hpermitted')).trans (if_neg (not_not.mpr hpermitted)).symm
    rw [commitFresh, hraise]
    rfl
  have hvalue : canonicalValue P (c.withOutcome outcome reason) = canonicalValue P c := rfl
  rw [commit, commit, hvalue]
  refine bind_congr fun _ => bind_congr fun _ => bind_congr fun value => bind_congr fun actHash =>
    bind_congr fun existing => ?_
  rcases existing with _ | act
  · exact hfresh value actHash
  · rfl

/-- **A call admits a new Act**, against any store: it returns, and the place it asks for
was empty when the gate looked. -/
structure AdmitsNew (P : Primitives) (h : Handler LedgerOp.Ret Raised σ) (s : σ) (c : Submission)
    (a : Act) (t : σ) : Prop where
  returned : (commit P c).run h s = (.ok a, t)
  vacant : ∀ k, c.occurrence P = .ok k → ((getAct k).run h s).1 = .ok none

/-- A new Act is admitted under a permitted outcome. -/
theorem AdmitsNew.permitted (hnew : AdmitsNew P h s c a t) :
    c.decision.outcome ∈ permittedOutcomes c.actType := by
  have hrun := hnew.returned
  rw [commit, run_raiseWhen_bind_ok, run_raiseWhen_bind_ok] at hrun
  obtain ⟨-, -, hrun⟩ := hrun
  obtain ⟨value, hvalue, hrun⟩ := run_ofExcept_bind_ok.mp hrun
  obtain ⟨actHash, hhash, hrun⟩ := run_ofExcept_bind_ok.mp hrun
  obtain ⟨existing, u, hget, hrun⟩ := run_bind_ok.mp hrun
  have hoccurrence : c.occurrence P = .ok actHash := by
    rw [Submission.occurrence, hvalue]
    exact hhash
  have hvacant := hnew.vacant actHash hoccurrence
  rw [hget] at hvacant
  cases hvacant
  exact not_not.mp (run_raiseWhen_bind_ok.mp hrun).1

/-- An Act admitted under one permitted outcome is admitted under another. -/
theorem AdmitsNew.withOutcome (hnew : AdmitsNew P h s c a t) {outcome : DecisionKind}
    (reason : String) (hpermitted : outcome ∈ permittedOutcomes c.actType) :
    AdmitsNew P h s (c.withOutcome outcome reason) a t where
  returned := by
    rw [commit_withOutcome reason hnew.permitted hpermitted]
    exact hnew.returned
  vacant := hnew.vacant

/-- **The history shows the outcome** of a call: another outcome, where it admits an Act as
well, leads to another history. -/
def OutcomeShows (P : Primitives) (h : Handler LedgerOp.Ret Raised σ) (s : σ) (c : Submission) :
    Prop :=
  ∀ outcome reason, outcome ≠ c.decision.outcome → ∀ a t a' t', AdmitsNew P h s c a t →
    AdmitsNew P h s (c.withOutcome outcome reason) a' t' → t ≠ t'

/-- **History shows the outcome of every admitted Act but a resolution.** For another type
the outcome is the only one the type permits. -/
theorem outcomeShows_iff (P : Primitives) {σ : Type} (h : Handler LedgerOp.Ret Raised σ) (s : σ)
    (c : Submission) (a : Act) (t : σ) (hnew : AdmitsNew P h s c a t) :
    (OutcomeShows P h s c ↔ c.actType ≠ "AuthorizationResolved") ∧
      (c.actType ≠ "AuthorizationResolved" →
        permittedOutcomes c.actType = [c.decision.outcome]) := by
  refine ⟨⟨fun hshows hresolved => ?_, fun htype => ?_⟩,
    fun htype => permittedOutcomes_eq_singleton htype hnew.permitted⟩
  · have hpermitted := hnew.permitted
    -- The other of the two outcomes a resolution may have.
    obtain ⟨outcome, hne, hpermitted'⟩ : ∃ outcome, outcome ≠ c.decision.outcome ∧
        outcome ∈ permittedOutcomes c.actType := by
      rw [hresolved, mem_permittedOutcomes_resolved] at hpermitted
      simp only [hresolved, mem_permittedOutcomes_resolved]
      rcases hpermitted with hallow | hdeny
      · exact ⟨.deny, by rw [hallow]; decide, Or.inr rfl⟩
      · exact ⟨.allow, by rw [hdeny]; decide, Or.inl rfl⟩
    exact hshows outcome c.decision.reason hne a t a t hnew (hnew.withOutcome _ hpermitted') rfl
  · intro outcome reason hne a' t' b u hnew hnew'
    have hsingle := permittedOutcomes_eq_singleton htype hnew.permitted
    have hpermitted' : outcome ∈ permittedOutcomes c.actType := hnew'.permitted
    rw [hsingle] at hpermitted'
    exact absurd (List.mem_singleton.mp hpermitted') hne

/-- Against the in-memory ledger, this is an admission. -/
theorem AdmitsNew.of_admits {known : MemoryLedger → String → String → Cut → Bool}
    {s : MemoryLedger} (hadm : Gate.Admits P known s c a) :
    AdmitsNew P (MemoryLedger.handle known) s c a (Gate.step P known s c) where
  returned := Prod.ext hadm.returned rfl
  vacant k hk := by
    have hspec := hadm.admission
    rw [Submission.occurrence, canonicalValue, hspec.commandHash, hspec.contextHash] at hk
    obtain rfl : a.hash = k := Except.ok.inj (hspec.hash.symm.trans hk)
    rw [MemoryLedger.run_getAct, hadm.fresh]

/-- The request of a review shows that a review was required. -/
theorem outcomeShows_request : OutcomeShows (Sample.primitives "")
    (MemoryLedger.handle MemoryLedger.registered) Sample.store Sample.requestReview := by
  have hadm : Gate.Admitted (Sample.primitives "") MemoryLedger.registered Sample.store
      (Sample.resolved .allow ++ [Sample.consequence]) [] Sample.requestReview Sample.request :=
    .of_full (congrArg List.length Gate.entries_reviewed) (List.prefix_append _ _)
      (by rw [Gate.entries_reviewed]; rfl)
  refine (outcomeShows_iff (Sample.primitives "") (MemoryLedger.handle MemoryLedger.registered)
    Sample.store Sample.requestReview Sample.request _ (.of_admits hadm.admits)).1.mpr ?_
  change "ReviewRequested" ≠ "AuthorizationResolved"
  decide

/-- **A denial and an approval are one historical fact**: resolved either way, the review
leaves the same ledger. -/
theorem not_outcomeShows_resolution : ¬OutcomeShows (Sample.primitives "")
    (MemoryLedger.handle MemoryLedger.registered)
    (Gate.exec (Sample.primitives "") MemoryLedger.registered Sample.store
      [Sample.requestReview, Sample.giveReview]) (Sample.resolveReview .allow) := by
  intro hshows
  have hadm : Gate.Admitted (Sample.primitives "") MemoryLedger.registered Sample.store
      (Sample.resolved .allow ++ [Sample.consequence]) [Sample.requestReview, Sample.giveReview]
      (Sample.resolveReview .allow) Sample.resolution :=
    .of_full (congrArg List.length Gate.entries_reviewed) (List.prefix_append _ _)
      (by rw [Gate.entries_reviewed]; rfl)
  have hallow := AdmitsNew.of_admits hadm.admits
  exact hshows .deny "" (by decide) _ _ _ _ hallow
    (hallow.withOutcome "" (mem_permittedOutcomes_resolved.mpr (Or.inr rfl))) rfl

end CommitGate

/-- **A run in which the review is denied leaves the ledger of the approval.** -/
theorem Gate.exec_resolved (outcome : DecisionKind) (h : outcome ≠ .requireReview)
    (rest : List Submission) :
    exec (Sample.primitives "") MemoryLedger.registered Sample.store
        (Sample.resolved outcome ++ rest)
      = exec (Sample.primitives "") MemoryLedger.registered Sample.store
        (Sample.resolved .allow ++ rest) := by
  cases outcome with
  | allow => rfl
  | deny =>
    have hcommit : CommitGate.commit (Sample.primitives "") (Sample.resolveReview .deny)
        = CommitGate.commit (Sample.primitives "") (Sample.resolveReview .allow) :=
      CommitGate.commit_withOutcome (c := Sample.resolveReview .allow) ""
        (mem_permittedOutcomes_resolved.mpr (Or.inl rfl))
        (mem_permittedOutcomes_resolved.mpr (Or.inr rfl))
    have hstep : ∀ s, step (Sample.primitives "") MemoryLedger.registered s
        (Sample.resolveReview .deny) = step (Sample.primitives "") MemoryLedger.registered s
          (Sample.resolveReview .allow) := by
      intro s
      rw [step, step, hcommit]
    simp only [Sample.resolved, List.cons_append, List.nil_append, exec, Runs.exec,
      List.foldl_cons, hstep]
  | requireReview => exact absurd rfl h

end PowerfarmKernel
