import PowerfarmKernel.Kernel.Index
import PowerfarmKernel.Kernel.Review
import PowerfarmKernel.Service.Lifecycle
import PowerfarmKernel.Service.Occurrence

/-!
# What `pending_review` promises

The status of a Command and the gate both ask whether it is under review, of different
data: the status looks at the types of the Acts the Command owns, the gate at the Acts a
chain links, whatever they belong to. They agree on the answer that matters. Where a
Command is reported `pending_review`, the gate refuses every consequence of it, and it does
so until a resolution of the Command is in history
(`PowerfarmKernel.Gate.pending_review_blocks`).

The refusal is a `CommitError`, unless the Act that is asked for cannot even be written down:
a Context may hold a number RFC 8785 has no form for, and then it is the canonicalizer that
refuses, before the gate looks at any review.
-/

namespace PowerfarmKernel

open Prog LedgerM

namespace LifecycleService

/-- **When the status text is `pending_review`**: nothing was committed, no stage ends the
trajectory, a review was requested and none was resolved. -/
theorem statusText_pending_iff {recorded : List String} {committed : Bool} :
    statusText recorded committed = "pending_review" ↔
      committed = false ∧ (∀ stage ∈ recorded, stage ∉ terminal) ∧
        "ReviewRequested" ∈ recorded ∧ "AuthorizationResolved" ∉ recorded := by
  rcases committed with _ | _
  · by_cases hterminal : ∃ stage ∈ recorded, stage ∈ terminal
    · -- A stage that ends the trajectory is the status itself.
      have hmem := statusText_terminal hterminal
      obtain ⟨stage, hstage, hends⟩ := hterminal
      refine iff_of_false (fun h => ?_) fun h => h.2.1 stage hstage hends
      rw [h] at hmem
      exact absurd hmem (by decide)
    · have hnone : ∀ stage ∈ recorded, stage ∉ terminal := fun stage hstage hends =>
        hterminal ⟨stage, hstage, hends⟩
      have hfilter : (recorded.filter fun stage => stage ∈ terminal) = [] := by
        rw [List.filter_eq_nil_iff]
        intro stage hstage hends
        exact hnone stage hstage (of_decide_eq_true hends)
      rw [statusText, if_neg (by decide), hfilter]
      by_cases hpending : "ReviewRequested" ∈ recorded ∧ "AuthorizationResolved" ∉ recorded
      · simp only [List.min?_nil, if_pos hpending, true_iff]
        exact ⟨trivial, hnone, hpending⟩
      · by_cases hempty : recorded = []
        · simp [hempty]
        · simp [hempty, hpending]
  · rw [statusText_committed]
    simp

/-- **When a Command is reported `pending_review`**, in terms of the Acts it owns. -/
theorem project_pending_iff {commandHash : Hash} {acts : List Act} :
    (project commandHash acts).status = "pending_review" ↔
      (∀ a ∈ acts, a.IsLifecycle ∧ a.actType ∉ terminal) ∧
        (∃ a ∈ acts, a.actType = "ReviewRequested") ∧
        ∀ a ∈ acts, a.actType ≠ "AuthorizationResolved" := by
  have hstage : ∀ stage, stage ∈ lifecycleActTypes →
      (stage ∈ (acts.filter fun act => act.actType ∈ lifecycleActTypes).map Act.actType ↔
        ∃ a ∈ acts, a.actType = stage) := by
    intro stage hlife
    simp only [List.mem_map, List.mem_filter, decide_eq_true_eq]
    constructor
    · rintro ⟨a, ⟨ha, -⟩, rfl⟩
      exact ⟨a, ha, rfl⟩
    · rintro ⟨a, ha, rfl⟩
      exact ⟨a, ⟨ha, hlife⟩, rfl⟩
  have hcommitted : decide (acts.filter (fun act => act.actType ∉ lifecycleActTypes) ≠ []) = false ↔
      ∀ a ∈ acts, a.IsLifecycle := by
    rw [decide_eq_false_iff_not, not_not, List.filter_eq_nil_iff]
    simp [Act.IsLifecycle]
  have hopen : (∀ stage ∈ (acts.filter fun act => act.actType ∈ lifecycleActTypes).map Act.actType,
      stage ∉ terminal) ↔ ∀ a ∈ acts, a.IsLifecycle → a.actType ∉ terminal := by
    simp only [List.mem_map, List.mem_filter, decide_eq_true_eq]
    constructor
    · intro h a ha hlife
      exact h _ ⟨a, ⟨ha, hlife⟩, rfl⟩
    · rintro h _ ⟨a, ⟨ha, hlife⟩, rfl⟩
      exact h a ha hlife
  have hstatus : (project commandHash acts).status
      = statusText ((acts.filter fun act => act.actType ∈ lifecycleActTypes).map Act.actType)
        (acts.filter (fun act => act.actType ∉ lifecycleActTypes) ≠ []) := rfl
  rw [hstatus, statusText_pending_iff, hcommitted, hopen, hstage _ (by decide),
    hstage _ resolved_mem_lifecycle]
  constructor
  · rintro ⟨hlife, hends, hrequest, hunresolved⟩
    exact ⟨fun a ha => ⟨hlife a ha, hends a ha (hlife a ha)⟩, hrequest,
      fun a ha htype => hunresolved ⟨a, ha, htype⟩⟩
  · rintro ⟨hopen, hrequest, hunresolved⟩
    refine ⟨fun a ha => (hopen a ha).1, fun a ha _ => (hopen a ha).2, hrequest, ?_⟩
    rintro ⟨a, ha, htype⟩
    exact hunresolved a ha htype

end LifecycleService

/-! ### A blocked Command -/

/-- **A Command is blocked**: a review was requested of it and none was resolved, and it has
bought no consequence. -/
structure Blocked (s : MemoryLedger) (commandHash : Hash) : Prop where
  index : Gate.IndexExact s commandHash
  requested : Gate.UnderReview s commandHash
  unresolved : ∀ k r, s.acts.get? k = some r → ¬Gate.IsResolution commandHash r
  unsettled : ∀ k a, s.acts.get? k = some a → a.commandHash = commandHash → a.IsLifecycle

/-- **The gate refuses a call**, and the ledger is as it was. Where it raises anything but a
`CommitError`, it is the canonicalizer that refuses the Act that is asked for. -/
def Refuses (P : Primitives) (known : MemoryLedger → String → String → Cut → Bool)
    (s : MemoryLedger) (c : Submission) : Prop :=
  ∃ e, (CommitGate.commit P c).run (MemoryLedger.handle known) s = (.error e, s) ∧
    (e.cls = .commitError ∨ e.cls = .canonicalizationError ∧ c.occurrence P = .error e)

/-- **A call is answered with an Act of another Command or another stage**, because the hash
of the Act it asks for is taken. -/
def Misfiled (P : Primitives) (known : MemoryLedger → String → String → Cut → Bool)
    (s : MemoryLedger) (c : Submission) : Prop :=
  ∃ a k, (CommitGate.commit P c).run (MemoryLedger.handle known) s = (.ok a, s) ∧
    c.occurrence P = .ok k ∧ s.acts.get? k = some a ∧
    (c.command.hash P ≠ .ok a.commandHash ∨ a.actType ≠ c.actType)

section Blocked

variable {P : Primitives} {known : MemoryLedger → String → String → Cut → Bool}
  {s : MemoryLedger} {c : Submission} {commandHash : Hash}

/-- No chain of a blocked Command fits together: there is no resolution to link. -/
theorem Blocked.not_structuralProof (h : Blocked s commandHash)
    (hcons : c.actType ∉ lifecycleActTypes) :
    ¬StructuralProof P s.toMemoryStore c.command commandHash c.actType c.authChain := by
  intro hproof
  obtain ⟨owned, howned, hresolved⟩ := hproof.consequential hcons
  obtain ⟨k, q, hq, htype, hcommand⟩ := h.requested
  rw [h.index.getActsForCommand] at howned
  cases howned
  obtain ⟨r, ⟨link, -, hr⟩, hres⟩ :=
    hresolved ⟨q, Gate.mem_actsOf_iff.mpr ⟨k, hq, hcommand⟩, htype⟩
  exact h.unresolved link r hr hres

/-- A blocked Command has bought nothing. -/
theorem Blocked.run_alreadySettled (h : Blocked s commandHash) (actType : String) :
    (CommitGate.alreadySettled actType commandHash).run (MemoryLedger.handle known) s
      = (.ok false, s) := by
  refine run_alreadySettled_ok.mpr ⟨rfl, fun _ => ⟨_, h.index.getActsForCommand, ?_⟩⟩
  intro b hb
  obtain ⟨k, hk, hcommand⟩ := Gate.mem_actsOf_iff.mp hb
  exact h.unsettled k b hk hcommand

/-- The structural check of a blocked Command raises, and nothing but a `CommitError`. -/
theorem Blocked.run_requireStructuralProof (h : Blocked s commandHash)
    (hcons : c.actType ∉ lifecycleActTypes) :
    (CommitGate.requireStructuralProof P c.command commandHash c.actType c.authChain).run
        (MemoryLedger.handle known) s
      = (.error (commitError "Command under review requires a resolved authorization chain"),
          s) := by
  have hrev : c.actType ≠ "AuthorizationReviewed" := fun htype =>
    hcons (htype ▸ reviewed_mem_lifecycle)
  have hres : c.actType ≠ "AuthorizationResolved" := fun htype =>
    hcons (htype ▸ resolved_mem_lifecycle)
  rw [CommitGate.requireStructuralProof, if_neg hrev, run_bind_of_eq run_links, if_neg hres,
    if_neg hcons, run_bind, MemoryLedger.run_getActsForCommand, h.index.getActsForCommand]
  dsimp only
  obtain ⟨k, q, hq, htype, hcommand⟩ := h.requested
  have hunder : ((Gate.actsOf s commandHash).any fun act => act.actType = "ReviewRequested")
      = true :=
    List.any_eq_true.mpr ⟨q, Gate.mem_actsOf_iff.mpr ⟨k, hq, hcommand⟩, decide_eq_true htype⟩
  have hnone : ((c.authChain.map fun link => s.acts.get? link).reduceOption.any fun act =>
      act.actType = "AuthorizationResolved" ∧ act.commandHash = commandHash) = false := by
    rw [List.any_eq_false]
    intro r hr hres
    obtain ⟨link, -, hlink⟩ := mem_reduceOption_links.mp hr
    have hboth := of_decide_eq_true hres
    exact h.unresolved link r hlink ⟨hboth.1, hboth.2⟩
  rw [run_raiseWhen, if_pos ⟨hunder, hnone⟩]

/-- **The body of the gate refuses a blocked Command its consequence**, with a
`CommitError`. -/
theorem Blocked.run_commitFresh (h : Blocked s commandHash)
    (known : MemoryLedger → String → String → Cut → Bool)
    (hcommand : c.command.hash P = .ok commandHash) (hcons : c.actType ∉ lifecycleActTypes)
    {contextHash : Hash} (hcontext : c.context.hash P = .ok contextHash) (value : CanonValue)
    (actHash : Hash) :
    ∃ e, e.cls = .commitError ∧ (CommitGate.commitFresh P c value actHash).run
      (MemoryLedger.handle known) s = (.error e, s) := by
  rw [CommitGate.commitFresh, run_bind, run_raiseWhen]
  by_cases hpermitted : c.decision.outcome ∉ permittedOutcomes c.actType
  · rw [if_pos hpermitted]
    exact ⟨_, rfl, rfl⟩
  have hsettled : (raiseWhen (false = true)
      (commitError "Command already produced a consequential Act")).run
        (MemoryLedger.handle known) s = (.ok (), s) :=
    run_raiseWhen_ok.mpr ⟨Bool.false_ne_true, rfl⟩
  rw [if_neg hpermitted]
  dsimp only
  rw [hcommand, run_bind_of_eq (run_ofExcept _), hcontext, run_bind_of_eq (run_ofExcept _),
    run_bind_of_eq (h.run_alreadySettled c.actType), run_bind_of_eq hsettled, run_bind,
    h.run_requireStructuralProof hcons]
  exact ⟨_, rfl, rfl⟩

/-- A call asks for an Act that has no hash when the canonicalizer refuses it. -/
theorem Submission.occurrence_error {e : Raised} (h : c.occurrence P = .error e) :
    e.cls = .canonicalizationError := by
  have refused : ∀ {kind : String} {value : CanonValue}, kind ≠ "" ∧ ':' ∉ kind.toList →
      objectHash P kind value = .error e → e.cls = .canonicalizationError := by
    intro kind value hkind hhash
    have htag : ¬(kind = "" ∨ ':' ∈ kind.toList ∨ ("v1" : String) = "") := by
      rintro (hempty | hcolon | hversion)
      · exact hkind.1 hempty
      · exact hkind.2 hcolon
      · exact absurd hversion (by decide)
    rw [objectHash, objectHashAt, if_neg htag] at hhash
    rcases hcanon : canonicalize P value with e' | canon
    · rw [hcanon] at hhash
      cases hhash
      exact canonicalize_error hcanon
    · rw [hcanon] at hhash
      cases hhash
  rw [Submission.occurrence] at h
  rcases hvalue : CommitGate.canonicalValue P c with e' | value
  · rw [hvalue] at h
    cases h
    rw [CommitGate.canonicalValue] at hvalue
    rcases hcommand : c.command.hash P with e' | commandHash
    · rw [hcommand] at hvalue
      cases hvalue
      exact refused (by decide) hcommand
    · rw [hcommand] at hvalue
      dsimp only at hvalue
      rcases hcontext : c.context.hash P with e' | contextHash
      · rw [hcontext] at hvalue
        cases hvalue
        exact refused (by decide) hcontext
      · rw [hcontext] at hvalue
        cases hvalue
  · rw [hvalue] at h
    exact refused (by decide) h

/-- **What the gate answers a blocked Command that asks for a consequence**: it refuses, or
returns the Act that stands where the one asked for would. -/
theorem Blocked.refuses_or_returns (h : Blocked s commandHash)
    (known : MemoryLedger → String → String → Cut → Bool)
    (hcommand : c.command.hash P = .ok commandHash) (hcons : c.actType ∉ lifecycleActTypes) :
    Refuses P known s c ∨ ∃ a k, (CommitGate.commit P c).run (MemoryLedger.handle known) s
      = (.ok a, s) ∧ c.occurrence P = .ok k ∧ s.acts.get? k = some a := by
  have refused : ∀ {e : Raised}, c.occurrence P = .error e →
      e.cls = .commitError ∨ e.cls = .canonicalizationError ∧ c.occurrence P = .error e :=
    fun hocc => Or.inr ⟨Submission.occurrence_error hocc, hocc⟩
  rw [Refuses, CommitGate.commit, run_bind, run_raiseWhen]
  by_cases hsigner : c.identity.hash ≠ c.command.identityHash
  · rw [if_pos hsigner]
    exact Or.inl ⟨_, rfl, Or.inl rfl⟩
  rw [if_neg hsigner]
  dsimp only
  rw [run_bind, run_raiseWhen]
  by_cases hverified : c.command.verifies P c.identity = false
  · rw [if_pos hverified]
    exact Or.inl ⟨_, rfl, Or.inl rfl⟩
  rw [if_neg hverified]
  dsimp only
  rw [run_bind, run_ofExcept]
  rcases hvalue : CommitGate.canonicalValue P c with e | value
  · exact Or.inl ⟨e, rfl, refused (by rw [Submission.occurrence, hvalue])⟩
  have hocc : c.occurrence P = objectHash P "act" value := by rw [Submission.occurrence, hvalue]
  dsimp only
  rw [run_bind, run_ofExcept]
  rcases hhash : objectHash P "act" value with e | k
  · exact Or.inl ⟨e, rfl, refused (hocc.trans hhash)⟩
  dsimp only
  rw [run_bind, MemoryLedger.run_getAct]
  rcases hget : s.acts.get? k with _ | a
  · -- The place is free, so the checks are made, and the structural one refuses.
    obtain ⟨contextHash, hcontext⟩ : ∃ contextHash, c.context.hash P = .ok contextHash := by
      rw [CommitGate.canonicalValue, hcommand] at hvalue
      rcases hcontext : c.context.hash P with e | contextHash
      · rw [hcontext] at hvalue
        cases hvalue
      · exact ⟨contextHash, rfl⟩
    obtain ⟨e, he, hrun⟩ := h.run_commitFresh known hcommand hcons hcontext value k
    exact Or.inl ⟨e, hrun, Or.inl he⟩
  · exact Or.inr ⟨a, k, rfl, hocc.trans hhash, hget⟩

/-- An Act that stands where the consequence of a blocked Command would is something else. -/
theorem Blocked.refuses_or_misfiled (h : Blocked s commandHash)
    (known : MemoryLedger → String → String → Cut → Bool)
    (hcommand : c.command.hash P = .ok commandHash) (hcons : c.actType ∉ lifecycleActTypes) :
    Refuses P known s c ∨ Misfiled P known s c := by
  rcases h.refuses_or_returns known hcommand hcons with hrefuses | ⟨a, k, hrun, hocc, hget⟩
  · exact Or.inl hrefuses
  · refine Or.inr ⟨a, k, hrun, hocc, hget, ?_⟩
    by_cases hown : a.commandHash = commandHash
    · have hlife := h.unsettled k a hget hown
      exact Or.inr fun htype => hcons (htype ▸ hlife)
    · refine Or.inl fun heq => hown ?_
      rw [hcommand] at heq
      exact (Except.ok.inj heq).symm

/-- Where Acts stand under the hash of their own content, nothing is misfiled. -/
theorem not_misfiled (hs : AuthorityService.Addressed P s) (hdumps : P.InjectiveOnJson)
    (hsha : Function.Injective P.sha256) : ¬Misfiled P known s c := by
  rintro ⟨a, k, -, hocc, hget, hdiffers⟩
  obtain ⟨commandHash, contextHash, hcommand, -, rfl⟩ := hs.eq_actOf hdumps hsha hocc hget
  rcases hdiffers with hother | htype
  · exact hother hcommand
  · exact htype rfl

end Blocked

/-! ### Runs -/

namespace Gate

open Runs LifecycleService

variable {P : Primitives} {known : MemoryLedger → String → String → Cut → Bool}
  {s : MemoryLedger} {calls pre : List Submission} {commandHash : Hash}

/-- **A Command that is reported `pending_review` is blocked.** -/
theorem blocked_of_reported (hs : IndexExact s commandHash)
    (h : reported known s commandHash = .ok "pending_review") : Blocked s commandHash := by
  rw [reported_eq hs.getActsForCommand] at h
  obtain ⟨hopen, ⟨q, hq, htype⟩, hunresolved⟩ := project_pending_iff.mp (Except.ok.inj h)
  obtain ⟨k, hk, hcommand⟩ := mem_actsOf_iff.mp hq
  refine ⟨hs, ⟨k, q, hk, htype, hcommand⟩, ?_, ?_⟩
  · rintro k r hr ⟨hres, hcommand⟩
    exact hunresolved r (mem_actsOf_iff.mpr ⟨k, hr, hcommand⟩) hres
  · intro k a ha hcommand
    exact (hopen a (mem_actsOf_iff.mpr ⟨k, ha, hcommand⟩)).1

/-- **A call leaves a blocked Command blocked**, unless it brings a resolution. -/
theorem blocked_step (h : Blocked s commandHash) (c : Submission)
    (hunresolved : ∀ k r, (step P known s c).acts.get? k = some r →
      ¬IsResolution commandHash r) : Blocked (step P known s c) commandHash := by
  refine ⟨h.index.step c, ?_, hunresolved, ?_⟩
  · obtain ⟨k, q, hq, hrequest⟩ := h.requested
    exact ⟨k, q, acts_le_step s c _ _ hq, hrequest⟩
  · intro k a ha hcommand
    rcases step_cases P known s c with hsame | ⟨b, hb⟩
    · rw [hsame.acts] at ha
      exact h.unsettled k a ha hcommand
    · rcases hb.get?_iff.mp ha with ⟨-, rfl⟩ | hold
      · -- A consequence would have linked a resolution, and there is none.
        by_contra hcons
        have hspec := hb.admission
        have htype : c.actType ∉ lifecycleActTypes := by
          rw [← hspec.actType]
          exact hcons
        refine Blocked.not_structuralProof (P := P) h htype ?_
        rw [← hcommand]
        exact hspec.structural
      · exact h.unsettled k a hold hcommand

/-- **A blocked Command stays blocked until it is resolved.** -/
theorem blocked_exec (h : Blocked s commandHash) (calls : List Submission)
    (hunresolved : ∀ k r, (exec P known s calls).acts.get? k = some r →
      ¬IsResolution commandHash r) : Blocked (exec P known s calls) commandHash := by
  induction calls using List.reverseRecOn with
  | nil => exact h
  | append_singleton calls c ih =>
    have hpre : calls <+: calls ++ [c] := List.prefix_append calls [c]
    have hbefore := ih fun k r hr => hunresolved k r (acts_le_exec hpre _ _ hr)
    rw [exec, exec_concat] at hunresolved ⊢
    exact blocked_step hbefore c hunresolved

/-- **A Command reported `pending_review` is blocked until it is resolved.** Take a ledger
whose index of the Command is exact, any run of it after which the Command is reported
`pending_review`, and any longer run whose history has no resolution of the Command. Every
call that asks for a consequence of the Command then leaves the ledger as it is, and is
refused; the refusal is a `CommitError` or says that the Act asked for has no canonical
form. The one exception is a call whose hash is taken by an Act of another Command or
another stage, which it is answered with. There is none where nothing collides and the
ledger started with Acts under the hash of their own content. -/
theorem pending_review_blocked (P : Primitives)
    (known : MemoryLedger → String → String → Cut → Bool) (s : MemoryLedger) (commandHash : Hash)
    (hs : IndexExact s commandHash) (calls : List Submission)
    (hpending : reported known (exec P known s calls) commandHash = .ok "pending_review") :
    (∀ k r, (exec P known s calls).acts.get? k = some r → ¬IsResolution commandHash r) ∧
      ∀ calls', calls <+: calls' →
        (∀ k r, (exec P known s calls').acts.get? k = some r → ¬IsResolution commandHash r) →
        ∀ c, c.command.hash P = .ok commandHash → c.actType ∉ lifecycleActTypes →
          step P known (exec P known s calls') c = exec P known s calls' ∧
          (Refuses P known (exec P known s calls') c ∨
            Misfiled P known (exec P known s calls') c) ∧
          (P.InjectiveOnJson → Function.Injective P.sha256 → AuthorityService.Addressed P s →
            Refuses P known (exec P known s calls') c) := by
  have hblocked : Blocked (exec P known s calls) commandHash :=
    blocked_of_reported (hs.exec calls) hpending
  refine ⟨hblocked.unresolved, ?_⟩
  rintro _ ⟨rest, rfl⟩ hunresolved c hcommand hcons
  have happend : exec P known s (calls ++ rest) = exec P known (exec P known s calls) rest :=
    List.foldl_append ..
  have hstill : Blocked (exec P known s (calls ++ rest)) commandHash := by
    rw [happend] at hunresolved ⊢
    exact blocked_exec hblocked rest hunresolved
  have hanswer := hstill.refuses_or_misfiled known hcommand hcons
  refine ⟨?_, hanswer, fun hdumps hsha haddressed => ?_⟩
  · rcases hanswer with ⟨e, hrun, -⟩ | ⟨a, k, hrun, -⟩
    · exact congrArg Prod.snd hrun
    · exact congrArg Prod.snd hrun
  · exact hanswer.resolve_right (not_misfiled (haddressed.exec_gate _) hdumps hsha)

/-- The history of a Command that waits for its review. -/
theorem entries_waiting :
    (exec (Sample.primitives "") MemoryLedger.registered Sample.store
        [Sample.requestReview]).acts.entries
      = [("0000", Sample.genesis ""), ("ff58", Sample.request)] := by
  rw [entries_exec_of_full (congrArg List.length entries_reviewed)
    (List.prefix_append [Sample.requestReview] _), entries_reviewed]
  rfl

/-- While its review is pending, the change a Command asks for is refused. -/
theorem pending_review_blocked_waiting :
    Refuses (Sample.primitives "") MemoryLedger.registered
      (exec (Sample.primitives "") MemoryLedger.registered Sample.store [Sample.requestReview])
      Sample.consequence := by
  have hexact : IndexExact (exec (Sample.primitives "") MemoryLedger.registered Sample.store
      [Sample.requestReview]) Sample.created := indexExact_store.exec _
  have hpending : reported MemoryLedger.registered (exec (Sample.primitives "")
      MemoryLedger.registered Sample.store [Sample.requestReview]) Sample.created
        = .ok "pending_review" := by
    rw [reported_eq hexact.getActsForCommand, actsOf, entriesOf, entries_waiting]
    decide
  have hchange := (admitted_change .allow (by decide)).admits.admission
  obtain ⟨hunresolved, hblocked⟩ := pending_review_blocked (Sample.primitives "")
    MemoryLedger.registered Sample.store Sample.created indexExact_store [Sample.requestReview]
    hpending
  rcases (hblocked _ List.prefix_rfl hunresolved Sample.consequence hchange.commandHash
    (by decide)).2.1 with hrefuses | ⟨a, k, -, hocc, hget, -⟩
  · exact hrefuses
  · -- The place of the change is free.
    have hplace :
        Sample.consequence.occurrence (Sample.primitives "") = .ok Sample.change.hash := by
      rw [Submission.occurrence, CommitGate.canonicalValue, hchange.commandHash,
        hchange.contextHash]
      exact hchange.hash
    rw [hplace] at hocc
    cases hocc
    rw [Dict.get?_eq_some_iff, entries_waiting] at hget
    have hkeys : Sample.change.hash ∉ ["0000", "ff58"] := by decide
    exact absurd (List.mem_map_of_mem (f := Prod.fst) hget) hkeys

end Gate

/-! ### A Context that has no canonical form -/

namespace Sample

mutual

/-- Whether a value has a canonical form: an integer has one where a double can hold it. -/
def representable : CanonValue → Bool
  | .int n => decide (|n| ≤ 2 ^ 53 - 1)
  | .list items => representableItems items
  | .dict items => representableFields items
  | _ => true

/-- The same for the items of a sequence. -/
def representableItems : List CanonValue → Bool
  | [] => true
  | item :: items => representable item && representableItems items

/-- The same for the items of a mapping. -/
def representableFields : List (String × CanonValue) → Bool
  | [] => true
  | (_, item) :: items => representable item && representableFields items

end

/-- Libraries that refuse the integers RFC 8785 refuses. -/
def strict : Primitives :=
  { primitives "" with
    dumps := fun value =>
      if representable value then .ok (text value) else .error "integer is out of range" }

/-- The change is asked for in a Context with a number that is too large. -/
def overflowing : Submission :=
  { consequence with context := { context with
      values := Dict.empty.set "origin" (.int (2 ^ 53)), keys_eq := fun _ => Iff.rfl } }

end Sample

namespace Gate

/-- **A blocked Command is refused by the canonicalizer**: its review is pending, and a call
that asks for its change in a Context with a number too large raises something else than a
`CommitError`. -/
theorem not_always_commitError :
    reported MemoryLedger.registered (exec Sample.strict MemoryLedger.registered Sample.store
        [Sample.requestReview]) Sample.created = .ok "pending_review" ∧
      ¬∀ c, c.command.hash Sample.strict = .ok Sample.created → c.actType ∉ lifecycleActTypes →
        ∃ e, ((CommitGate.commit Sample.strict c).run (MemoryLedger.handle MemoryLedger.registered)
          (exec Sample.strict MemoryLedger.registered Sample.store [Sample.requestReview])).1
            = .error e ∧ e.cls = .commitError := by
  refine ⟨by decide +kernel, fun hall => ?_⟩
  obtain ⟨e, hrun, hcls⟩ := hall Sample.overflowing (by decide +kernel) (by decide)
  have hrefused : (match ((CommitGate.commit Sample.strict Sample.overflowing).run
      (MemoryLedger.handle MemoryLedger.registered) (exec Sample.strict MemoryLedger.registered
        Sample.store [Sample.requestReview])).1 with
      | .error e => decide (e.cls = .canonicalizationError)
      | .ok _ => false) = true := by
    decide +kernel
  rw [hrun] at hrefused
  dsimp only at hrefused
  rw [hcls] at hrefused
  cases hrefused

end Gate

end PowerfarmKernel
