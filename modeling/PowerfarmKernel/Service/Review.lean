import PowerfarmKernel.Service.Settlement

/-!
# Reviews, and stages submitted again

`ReviewService.submit` of `service/review.py` checks the form of a review and hands the
request to the authority service: a review is a stage of history like any other.

A client that submits the request for a stage again does not get its Act back. The
first submission itself advances history, and the cut of the Decision is part of what
the Act is: the same request, decided at the new cut, asks for another occurrence, and
pinned to the old cut it is refused as overtaken. So the branch of
`PowerfarmKernel.AuthorityService.commitEvaluated` that answers with the Act in its
place is not taken, whichever way the cuts are given
(`PowerfarmKernel.ReviewService.stage_not_replayed`).
-/

namespace PowerfarmKernel

open Prog LedgerM

namespace ReviewService

/-! ### Submitting a review -/

/-- `ReviewService._validate_payload`. -/
def validatePayload (payload : List (String × CanonValue)) : Except Raised Unit :=
  match stringField payload "reviewed_command_hash" with
  | none => .error (validationError "reviewed_command_hash is required")
  | some target =>
      if target.length ≠ 64 then
        .error (validationError "reviewed_command_hash is required")
      else match stringField payload "outcome" with
        | some "allow" => .ok ()
        | some "deny" => .ok ()
        | _ => .error (validationError "review outcome must be allow or deny")

/-- What `ReviewService.submit` asks of a request before it hands it on. -/
def validate (request : ActionRequest) : Except Raised Unit :=
  if request.commandType ≠ "ReviewAuthorization" then
    .error (validationError "review submission requires ReviewAuthorization command type")
  else if request.actType ≠ "AuthorizationReviewed" then
    .error (validationError "review submission must produce AuthorizationReviewed")
  else match request.payload with
    | some (.dict payload) => validatePayload payload
    | _ => .error (validationError "review payload must be an object")

/-- **`ReviewService.submit`.** -/
def submit (P : Primitives) (service : AuthorityService) (request : ActionRequest)
    (principal : Option RequestPrincipal) : LedgerM (EvaluatedAction × Act) := do
  ofExcept (validate request)
  AuthorityService.commit P service request principal

variable {P : Primitives} {service : AuthorityService}
  {known : MemoryLedger → String → String → Cut → Bool} {s t : MemoryLedger}
  {request : ActionRequest} {principal : Option RequestPrincipal}

/-- **A review that was accepted once is a plain commit at any other time**: what is
asked of it is asked of the request alone. -/
theorem run_submit_of_ok {x : EvaluatedAction × Act}
    (hrun : (submit P service request principal).run (MemoryLedger.handle known) s = (.ok x, t))
    (u : MemoryLedger) :
    (submit P service request principal).run (MemoryLedger.handle known) u
      = (AuthorityService.commit P service request principal).run
        (MemoryLedger.handle known) u := by
  obtain ⟨_, hvalid, -⟩ := run_ofExcept_bind_ok.mp hrun
  rw [submit, hvalid, run_bind, run_ofExcept]

end ReviewService

/-! ### Stages submitted again -/

section Stages

variable {P : Primitives} {service : AuthorityService}
  {known : MemoryLedger → String → String → Cut → Bool} {s t : MemoryLedger}
  {request : ActionRequest} {principal : Option RequestPrincipal} {E : EvaluatedAction} {A : Act}

/-- **The Acts two calls of the gate ask for do not collide**: under one hash they are
one Act. -/
def Submission.NoCollision (P : Primitives) (c c' : Submission) : Prop :=
  ∀ v w k, CommitGate.canonicalValue P c = .ok v → CommitGate.canonicalValue P c' = .ok w →
    objectHash P "act" v = .ok k → objectHash P "act" w = .ok k → v = w

theorem CommitGate.canonicalValue_ok {c : Submission} {v : CanonValue}
    (h : canonicalValue P c = .ok v) :
    ∃ commandHash contextHash, v = actValue c commandHash contextHash := by
  rw [canonicalValue] at h
  rcases hcommand : c.command.hash P with e | commandHash
  · rw [hcommand] at h
    cases h
  · rcases hcontext : c.context.hash P with e | contextHash
    · rw [hcommand, hcontext] at h
      cases h
    · rw [hcommand, hcontext] at h
      cases h
      exact ⟨commandHash, contextHash, rfl⟩

theorem Submission.occurrence_ok_iff {c : Submission} {k : Hash} : c.occurrence P = .ok k ↔
    ∃ v, CommitGate.canonicalValue P c = .ok v ∧ objectHash P "act" v = .ok k := by
  rw [Submission.occurrence]
  rcases CommitGate.canonicalValue P c with e | v
  · simp
  · simp

/-- The hashed form of an admitted Act. -/
theorem Admission.canonicalValue {c : Submission} {a : Act} (h : Admission P known s c a) :
    CommitGate.canonicalValue P c = .ok (CommitGate.actValue c a.commandHash a.contextHash) := by
  rw [CommitGate.canonicalValue, h.commandHash, h.contextHash]

/-- Two calls that ask for one Act were decided at one cut. -/
theorem CommitGate.cut_eq_of_actValue {c c' : Submission} {h h' k k' : Hash}
    (heq : actValue c h h' = actValue c' k k') : c.decision.cut = c'.decision.cut := by
  simp only [actValue, strings, CanonValue.dict.injEq, List.cons.injEq, Prod.mk.injEq,
    CanonValue.list.injEq] at heq
  obtain ⟨-, -, -, -, -, ⟨-, hcut⟩, -⟩ := heq
  have hsorted := List.map_injective_iff.mpr (fun _ _ => CanonValue.str.inj) hcut
  ext x
  rw [← mem_sorted, hsorted, mem_sorted]

namespace AuthorityService

/-- **A stage the service has admitted**: what its admission says of the two ledgers. -/
theorem committed_of_new {x : EvaluatedAction × Act}
    (hstage : request.actType ∈ lifecycleActTypes)
    (hrun : (commit P service request principal).run (MemoryLedger.handle known) s = (.ok x, t))
    (hnew : x.2 ∉ s.acts.values) : Committed P service known s t request principal x.1 x.2 := by
  obtain ⟨E, -, -, hanswer⟩ := commit_ok hrun
  rcases hanswer with ⟨hcons, -⟩ | ⟨k, -, -, hget, -⟩ | ⟨hx, hcommitted⟩
  · exact absurd hstage hcons
  · exact absurd (Dict.mem_values_of_get? hget) hnew
  · rw [hx]
    exact hcommitted

/-- **A stage submitted again is another occurrence**, or is refused: the answer is not
the Act admitted first. -/
theorem commit_not_replayed (hstage : request.actType ∈ lifecycleActTypes)
    (hfirst : Committed P service known s t request principal E A) (hnew : A ∉ s.acts.values)
    (hcollision : ∀ E', (evaluate P service request principal).run (MemoryLedger.handle known) t
      = (.ok E', t) → Submission.NoCollision P (submission request E) (submission request E'))
    {r : Except Raised (EvaluatedAction × Act)} {u : MemoryLedger}
    (hrun : (commit P service request principal).run (MemoryLedger.handle known) t = (r, u)) :
    (∃ e, r = .error e) ∨
      request.historyCut = none ∧ ∃ E' A', r = .ok (E', A') ∧ A' ≠ A := by
  obtain ⟨v, hsame, hadm, hplaced, -⟩ := hfirst.admitted
  have hA : t.acts.get? A.hash = some A := by
    rw [hplaced.acts, Dict.get?_set_self]
  have hfresh : s.acts.get? A.hash = none := by
    rw [← hsame.acts]
    exact hadm.fresh
  -- The first submission is in the history the second one is decided at.
  have hmoved : s.historyCut ≠ t.historyCut := by
    intro heq
    obtain ⟨a, ha⟩ := MemoryStore.mem_historyCut.mp (heq ▸ MemoryStore.mem_historyCut.mpr ⟨A, hA⟩)
    rw [hfresh] at ha
    cases ha
  have hunpinned : ∀ {E'}, Evaluation P service known t request principal E' →
      E'.decision.cut = t.historyCut → request.historyCut = none := by
    intro E' hE' hcut'
    rcases hpinned : request.historyCut with _ | cut
    · rfl
    · have hcut := hfirst.evaluation.cut.symm.trans hfirst.cut
      rw [hE'.cut, hpinned] at hcut'
      rw [hpinned] at hcut
      exact absurd (hcut.symm.trans hcut') hmoved
  rcases r with e | ⟨E'', a⟩
  · exact Or.inl ⟨e, rfl⟩
  right
  obtain ⟨E', heval, -, hanswer⟩ := commit_ok hrun
  have hE' := (evaluate_ok heval).2
  rcases hanswer with ⟨hcons, -⟩ | ⟨k, hcut', hocc, hget, -⟩ | ⟨-, hsecond⟩
  · exact absurd hstage hcons
  · refine ⟨hunpinned hE' hcut', E'', a, rfl, ?_⟩
    rintro rfl
    -- The Act that held its place would be the first submission itself.
    have hk : k = a.hash := by
      by_contra hne
      rw [hplaced.acts, Dict.get?_set_of_ne hne, hsame.acts] at hget
      exact hnew (Dict.mem_values_of_get? hget)
    obtain ⟨w, hw, hhash⟩ := Submission.occurrence_ok_iff.mp hocc
    have hvalue := hcollision E' heval _ w k hadm.canonicalValue hw (hk ▸ hadm.hash) hhash
    obtain ⟨commandHash, contextHash, rfl⟩ := CommitGate.canonicalValue_ok hw
    have hcut := CommitGate.cut_eq_of_actValue hvalue
    exact hmoved (hfirst.cut.symm.trans (hcut.trans hcut'))
  · refine ⟨hunpinned hE' hsecond.cut, E'', a, rfl, ?_⟩
    rintro rfl
    obtain ⟨w, hsame', hadm', -⟩ := hsecond.admitted
    have hnone := hadm'.fresh
    rw [hsame'.acts, hA] at hnone
    cases hnone

end AuthorityService

namespace ReviewService

/-- **Submitting the request again returns this Act and adds none.** -/
def Replayed (known : MemoryLedger → String → String → Cut → Bool)
    (submitted : LedgerM (EvaluatedAction × Act)) (t : MemoryLedger) (A : Act) : Prop :=
  ∃ E u, submitted.run (MemoryLedger.handle known) t = (.ok (E, A), u) ∧ u.acts = t.acts

/-- **A stage is never replayed.** Whatever the ledger, the request and the principal,
and by whichever service it is submitted: a request for a stage that was admitted as an
Act, submitted again in the ledger that admission left behind, is not answered with that
Act. Where the request pins its history cut, it is refused. Of the digest this asks that
the two canonical forms, of the Act that stands and of the Act asked for, do not
collide. -/
theorem stage_not_replayed (P : Primitives) (service : AuthorityService)
    (known : MemoryLedger → String → String → Cut → Bool) (s t : MemoryLedger)
    (request : ActionRequest) (principal : Option RequestPrincipal)
    (submitted : LedgerM (EvaluatedAction × Act))
    (hsubmitted : submitted = AuthorityService.commit P service request principal ∨
      submitted = submit P service request principal)
    (hstage : request.actType ∈ lifecycleActTypes) (E : EvaluatedAction) (A : Act)
    (hrun : submitted.run (MemoryLedger.handle known) s = (.ok (E, A), t))
    (hnew : A ∉ s.acts.values)
    (hcollision : ∀ E', (AuthorityService.evaluate P service request principal).run
      (MemoryLedger.handle known) t = (.ok E', t) →
        Submission.NoCollision P (AuthorityService.submission request E)
          (AuthorityService.submission request E')) :
    ¬Replayed known submitted t A ∧
      (request.historyCut ≠ none →
        ∃ e, (submitted.run (MemoryLedger.handle known) t).1 = .error e) := by
  -- Both services end in the same commit.
  have hcommit : ∀ u, submitted.run (MemoryLedger.handle known) u
      = (AuthorityService.commit P service request principal).run
        (MemoryLedger.handle known) u := by
    rcases hsubmitted with rfl | rfl
    · exact fun _ => rfl
    · exact run_submit_of_ok hrun
  rw [hcommit] at hrun
  have hanswer := AuthorityService.commit_not_replayed hstage
    (AuthorityService.committed_of_new hstage hrun hnew) hnew hcollision (Prod.mk.eta.symm)
  constructor
  · rintro ⟨E', u, hagain, -⟩
    rw [← hcommit, hagain] at hanswer
    rcases hanswer with ⟨e, herr⟩ | ⟨-, E'', A', hok, hne⟩
    · cases herr
    · cases hok
      exact hne rfl
  · intro hpinned
    rw [hcommit]
    rcases hanswer with herr | ⟨hnone, -⟩
    · exact herr
    · exact absurd hnone hpinned

/-- The hash of the Act a submission is answered with. -/
def answered (known : MemoryLedger → String → String → Cut → Bool)
    (submitted : LedgerM (EvaluatedAction × Act)) (s : MemoryLedger) : Option Hash :=
  (submitted.run (MemoryLedger.handle known) s).1.toOption.map fun x => x.2.hash

/-- The ledger a submission leaves behind. -/
def after (known : MemoryLedger → String → String → Cut → Bool)
    (submitted : LedgerM (EvaluatedAction × Act)) (s : MemoryLedger) : MemoryLedger :=
  (submitted.run (MemoryLedger.handle known) s).2

theorem run_after {submitted : LedgerM (EvaluatedAction × Act)} {x : EvaluatedAction × Act}
    (h : (submitted.run (MemoryLedger.handle known) s).1.toOption = some x) :
    submitted.run (MemoryLedger.handle known) s = (.ok x, after known submitted s) :=
  Prod.ext (Sample.ok_of_toOption h) rfl

/-- A first answer the second one differs from. -/
theorem exists_not_replayed {submitted : LedgerM (EvaluatedAction × Act)}
    (h : ∃ k, answered known submitted s = some k ∧ k ∉ s.acts.values.map Act.hash ∧
      answered known submitted (after known submitted s) ≠ some k) :
    ∃ E A t, submitted.run (MemoryLedger.handle known) s = (.ok (E, A), t) ∧
      A ∉ s.acts.values ∧ ¬Replayed known submitted t A := by
  obtain ⟨k, hk, hfresh, hne⟩ := h
  rw [answered, Option.map_eq_some_iff] at hk
  obtain ⟨⟨E, A⟩, hok, rfl⟩ := hk
  refine ⟨E, A, after known submitted s, run_after hok, ?_, ?_⟩
  · exact fun hA => hfresh (List.mem_map_of_mem hA)
  · rintro ⟨E', u, hagain, -⟩
    refine hne ?_
    rw [answered, hagain]
    rfl

/-- The same review, at the cuts given. -/
def reviewAt (cut : Option Cut) : LedgerM (EvaluatedAction × Act) :=
  submit Sample.libraries Sample.authority
    { Sample.reviewThing with historyCut := cut, registryCut := cut } none

/-- A review submitted twice is not replayed, neither at the cuts it defaults to nor at
the cuts it pins. -/
theorem review_not_replayed :
    (∃ E A t, (reviewAt none).run (MemoryLedger.handle MemoryLedger.registered) Sample.office
        = (.ok (E, A), t) ∧
      A ∉ Sample.office.acts.values ∧ ¬Replayed MemoryLedger.registered (reviewAt none) t A) ∧
    ∃ E A t, (reviewAt (some {Sample.genesisHash Sample.pad})).run
        (MemoryLedger.handle MemoryLedger.registered) Sample.office = (.ok (E, A), t) ∧
      A ∉ Sample.office.acts.values ∧
      ¬Replayed MemoryLedger.registered (reviewAt (some {Sample.genesisHash Sample.pad})) t A := by
  constructor
  · exact exists_not_replayed ⟨"201b" ++ Sample.pad, by decide +kernel⟩
  · exact exists_not_replayed ⟨"201b" ++ Sample.pad, by decide +kernel⟩

/-- A Command is submitted. -/
def submission : LedgerM (EvaluatedAction × Act) :=
  AuthorityService.commit Sample.libraries Sample.authority Sample.submitThing none

/-- A submission made twice is two submissions. -/
theorem stage_not_replayed_submitted : ∃ E A t,
    submission.run (MemoryLedger.handle MemoryLedger.registered) Sample.office = (.ok (E, A), t) ∧
      ¬Replayed MemoryLedger.registered submission t A := by
  have hrun : (submission.run (MemoryLedger.handle MemoryLedger.registered)
        Sample.office).1.toOption.any (fun x => x.2 ∉ Sample.office.acts.values ∧
          ((AuthorityService.submission Sample.submitThing x.1).occurrence
            Sample.libraries).toOption = some ("67fd" ++ Sample.pad)) = true ∧
      ((AuthorityService.evaluate Sample.libraries Sample.authority Sample.submitThing none).run
        (MemoryLedger.handle MemoryLedger.registered)
        (after MemoryLedger.registered submission Sample.office)).1.toOption.all (fun E' =>
          ((AuthorityService.submission Sample.submitThing E').occurrence Sample.libraries).toOption
            ≠ some ("67fd" ++ Sample.pad)) = true := by
    decide +kernel
  obtain ⟨hfirst, hsecond⟩ := hrun
  rw [Option.any_eq_true] at hfirst
  obtain ⟨⟨E, A⟩, hok, hfirst⟩ := hfirst
  rw [decide_eq_true_eq] at hfirst
  obtain ⟨hnew, hfirst⟩ := hfirst
  have hstage : "CommandSubmitted" ∈ lifecycleActTypes := by decide
  have hsubmitted := run_after hok
  refine ⟨E, A, _, hsubmitted, ?_⟩
  refine (stage_not_replayed Sample.libraries Sample.authority MemoryLedger.registered Sample.office
    _ Sample.submitThing none submission (Or.inl rfl) hstage E A hsubmitted hnew ?_).1
  -- The two requests ask for Acts of different hashes.
  intro E' hE' v w k hv hw hk hk'
  rw [hE'] at hsecond
  have hfirst' := Submission.occurrence_ok_iff.mpr ⟨v, hv, hk⟩
  have hsecond' := Submission.occurrence_ok_iff.mpr ⟨w, hw, hk'⟩
  rw [hfirst'] at hfirst
  cases hfirst
  simp [Except.toOption, hsecond'] at hsecond

end ReviewService

end Stages

end PowerfarmKernel
