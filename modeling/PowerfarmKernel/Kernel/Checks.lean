import Mathlib.Data.List.ReduceOption
import PowerfarmKernel.Kernel.Commit
import PowerfarmKernel.Ledger.Memory

/-!
# What the gate checks

The body of `PowerfarmKernel.CommitGate.commitFresh` is a long list of checks, which read
only, and then the writes. The list is `PowerfarmKernel.CommitGate.checks`, and
`PowerfarmKernel.CommitGate.commitFresh_eq` cuts the body there.

`PowerfarmKernel.Checked` says of the state what the checks ask, and
`PowerfarmKernel.run_checks_ok` that they pass exactly then. What the chain of a
call must look like is its part `PowerfarmKernel.StructuralProof`.
-/

namespace PowerfarmKernel

open Prog LedgerM

variable {P : Primitives} {known : MemoryLedger → String → String → Cut → Bool}

/-! ### The structural proof, as a property of the store -/

/-- The Command that the review payload stored under a hash names. -/
def MemoryStore.reviewTarget (P : Primitives) (s : MemoryStore) (payloadHash : Hash) :
    Option String :=
  (s.objectCanon payloadHash).bind (CommitGate.declaredTarget P)

/-- An Act of history that a chain links. -/
def Linked (s : MemoryStore) (authChain : List Hash) (act : Act) : Prop :=
  ∃ link ∈ authChain, s.acts.get? link = some act

/-- **The parts of an authorization chain fit together**, as
`CommitGate._require_structural_proof` demands it of each kind of Act. -/
structure StructuralProof (P : Primitives) (s : MemoryStore) (command : Command)
    (commandHash : Hash) (actType : String) (authChain : List Hash) : Prop where
  /-- A review comes from a review Command whose payload names its target. -/
  reviewed : actType = "AuthorizationReviewed" →
    command.commandType = CommitGate.reviewCommandType ∧
      s.reviewTarget P command.payloadHash ≠ none
  /-- A resolution links the request it resolves and at least one review, and every
  review it links is a review of this Command. -/
  resolved : actType = "AuthorizationResolved" →
    (∃ q, Linked s authChain q ∧ q.actType = "ReviewRequested" ∧ q.commandHash = commandHash) ∧
      (∃ w, Linked s authChain w ∧ w.actType = "AuthorizationReviewed") ∧
      ∀ w, Linked s authChain w → w.actType = "AuthorizationReviewed" →
        s.reviewTarget P w.payloadHash = some commandHash
  /-- A consequence of a Command that was put under review links a resolution of it. -/
  consequential : actType ∉ lifecycleActTypes →
    ∃ owned, s.getActsForCommand commandHash = .ok owned ∧
      ((∃ q ∈ owned, q.actType = "ReviewRequested") →
        ∃ r, Linked s authChain r ∧ r.actType = "AuthorizationResolved" ∧
          r.commandHash = commandHash)

section Structural

variable {s t : MemoryLedger} {command : Command} {commandHash : Hash} {actType : String}
  {authChain : List Hash}

theorem mem_reduceOption_links {act : Act} :
    act ∈ (authChain.map fun link => s.acts.get? link).reduceOption ↔
      Linked s.toMemoryStore authChain act := by
  rw [List.reduceOption_mem_iff, List.mem_map]
  rfl

theorem run_reviewedCommand (payloadHash : Hash) :
    (CommitGate.reviewedCommand P payloadHash).run (MemoryLedger.handle known) s
      = (.ok (s.reviewTarget P payloadHash), s) := by
  rw [CommitGate.reviewedCommand, run_bind, MemoryLedger.run_objectCanon]
  rfl

/-- The reviews a chain links, and whether one of them reviews another Command. -/
theorem run_reviewsElsewhere (l : List Act) :
    (l.anyM fun act : Act => do
        let target ← CommitGate.reviewedCommand P act.payloadHash
        return decide (target ≠ some commandHash)).run (MemoryLedger.handle known) s
      = (.ok (l.any fun act => decide (s.reviewTarget P act.payloadHash ≠ some commandHash)),
          s) := by
  refine run_anyM_of_eq (fun act => ?_) l
  rw [run_bind, run_reviewedCommand]
  rfl

theorem run_links :
    (authChain.mapM getAct).run (MemoryLedger.handle known) s
      = (.ok (authChain.map fun link => s.acts.get? link), s) :=
  run_mapM_of_eq (fun _ => MemoryLedger.run_getAct) authChain

theorem any_linked_iff {p : Act → Prop} [DecidablePred p] :
    ¬(((authChain.map fun link => s.acts.get? link).reduceOption.any fun act => decide (p act))
        = false) ↔
      ∃ act, Linked s.toMemoryStore authChain act ∧ p act := by
  rw [Bool.not_eq_false, List.any_eq_true]
  simp only [mem_reduceOption_links, decide_eq_true_eq]

/-- A review is checked on the Command alone. -/
theorem run_requireStructuralProof_review {x : Unit} (hrev : actType = "AuthorizationReviewed") :
    (CommitGate.requireStructuralProof P command commandHash actType authChain).run
        (MemoryLedger.handle known) s = (.ok x, t) ↔
      t = s ∧ command.commandType = CommitGate.reviewCommandType ∧
        s.reviewTarget P command.payloadHash ≠ none := by
  rw [CommitGate.requireStructuralProof, if_pos hrev]
  simp only [run_bind_ok, run_raiseWhen_ok, run_reviewedCommand]
  constructor
  · rintro ⟨_, _, ⟨htype, rfl⟩, target, _, heq, htarget, rfl⟩
    cases heq
    exact ⟨rfl, not_not.mp htype, htarget⟩
  · rintro ⟨rfl, htype, htarget⟩
    exact ⟨(), t, ⟨not_not.mpr htype, rfl⟩, _, t, rfl, htarget, rfl⟩

/-- A resolution is checked on its chain: the request, the reviews, and where each
review points. -/
theorem run_requireStructuralProof_resolution {x : Unit}
    (hres : actType = "AuthorizationResolved") :
    (CommitGate.requireStructuralProof P command commandHash actType authChain).run
        (MemoryLedger.handle known) s = (.ok x, t) ↔
      t = s ∧
        (∃ q, Linked s.toMemoryStore authChain q ∧ q.actType = "ReviewRequested" ∧
          q.commandHash = commandHash) ∧
        (∃ w, Linked s.toMemoryStore authChain w ∧ w.actType = "AuthorizationReviewed") ∧
        ∀ w, Linked s.toMemoryStore authChain w → w.actType = "AuthorizationReviewed" →
          s.reviewTarget P w.payloadHash = some commandHash := by
  have hrev : actType ≠ "AuthorizationReviewed" := by
    rw [hres]
    decide
  rw [CommitGate.requireStructuralProof, if_neg hrev, run_bind, run_links]
  dsimp only
  rw [if_pos hres]
  simp only [run_bind_ok, run_raiseWhen_ok, run_reviewsElsewhere, any_linked_iff]
  -- The reviews the loop runs over are those among the links.
  have hreviews : ∀ w, w ∈ ((authChain.map fun link => s.acts.get? link).reduceOption.filter
      fun act => decide (act.actType = "AuthorizationReviewed")) ↔
      Linked s.toMemoryStore authChain w ∧ w.actType = "AuthorizationReviewed" := by
    intro w
    rw [List.mem_filter, mem_reduceOption_links, decide_eq_true_eq]
  constructor
  · rintro ⟨_, _, ⟨hreq, rfl⟩, _, _, ⟨hne, rfl⟩, _, _, heq, hall, rfl⟩
    cases heq
    obtain ⟨w, hw⟩ := List.exists_mem_of_ne_nil _ hne
    refine ⟨rfl, hreq, ⟨w, (hreviews w).mp hw⟩, fun w hw htype => ?_⟩
    by_contra hne'
    exact hall (List.any_eq_true.mpr ⟨w, (hreviews w).mpr ⟨hw, htype⟩, decide_eq_true hne'⟩)
  · rintro ⟨rfl, hreq, ⟨w, hw⟩, hall⟩
    refine ⟨(), t, ⟨hreq, rfl⟩, (), t, ⟨List.ne_nil_of_mem ((hreviews w).mpr hw), rfl⟩,
      _, t, rfl, fun hany => ?_, rfl⟩
    obtain ⟨w', hw', hne'⟩ := List.any_eq_true.mp hany
    obtain ⟨hlink, htype⟩ := (hreviews w').mp hw'
    exact of_decide_eq_true hne' (hall w' hlink htype)

/-- A consequence is blocked while its Command is under review. -/
theorem run_requireStructuralProof_consequence {x : Unit} (hcons : actType ∉ lifecycleActTypes) :
    (CommitGate.requireStructuralProof P command commandHash actType authChain).run
        (MemoryLedger.handle known) s = (.ok x, t) ↔
      t = s ∧ ∃ owned, s.getActsForCommand commandHash = .ok owned ∧
        ((∃ q ∈ owned, q.actType = "ReviewRequested") →
          ∃ r, Linked s.toMemoryStore authChain r ∧ r.actType = "AuthorizationResolved" ∧
            r.commandHash = commandHash) := by
  have hrev : actType ≠ "AuthorizationReviewed" := by
    rintro rfl
    exact hcons reviewed_mem_lifecycle
  have hres : actType ≠ "AuthorizationResolved" := by
    rintro rfl
    exact hcons resolved_mem_lifecycle
  rw [CommitGate.requireStructuralProof, if_neg hrev, run_bind, run_links]
  dsimp only
  rw [if_neg hres, if_neg hcons]
  simp only [run_bind_ok, run_raiseWhen_ok, MemoryLedger.run_getActsForCommand]
  -- What blocks is a request among the Command's Acts without a resolution among the links.
  constructor
  · rintro ⟨owned, _, heq, hblocked, rfl⟩
    obtain ⟨howned, rfl⟩ := Prod.mk.inj heq
    refine ⟨rfl, owned, howned, ?_⟩
    rintro ⟨q, hq, htype⟩
    have hunder : (owned.any fun act => decide (act.actType = "ReviewRequested")) = true :=
      List.any_eq_true.mpr ⟨q, hq, decide_eq_true htype⟩
    exact any_linked_iff.mp fun hnone => hblocked ⟨hunder, hnone⟩
  · rintro ⟨rfl, owned, howned, hresolved⟩
    refine ⟨owned, t, by rw [howned], ?_, rfl⟩
    rintro ⟨hunder, hnone⟩
    obtain ⟨q, hq, htype⟩ := List.any_eq_true.mp hunder
    exact any_linked_iff.mpr (hresolved ⟨q, hq, of_decide_eq_true htype⟩) hnone

/-- **The gate's structural check passes exactly on a structural proof**, and reads
only. -/
theorem run_requireStructuralProof_ok {x : Unit} :
    (CommitGate.requireStructuralProof P command commandHash actType authChain).run
        (MemoryLedger.handle known) s = (.ok x, t) ↔
      t = s ∧ StructuralProof P s.toMemoryStore command commandHash actType authChain := by
  by_cases hrev : actType = "AuthorizationReviewed"
  · rw [run_requireStructuralProof_review hrev]
    have hres : actType ≠ "AuthorizationResolved" := by
      rw [hrev]
      decide
    have hlife : actType ∈ lifecycleActTypes := hrev ▸ reviewed_mem_lifecycle
    exact and_congr_right fun _ => ⟨fun h => ⟨fun _ => h, fun h => absurd h hres,
      fun h => absurd hlife h⟩, fun h => h.reviewed hrev⟩
  by_cases hres : actType = "AuthorizationResolved"
  · rw [run_requireStructuralProof_resolution hres]
    have hlife : actType ∈ lifecycleActTypes := hres ▸ resolved_mem_lifecycle
    exact and_congr_right fun _ => ⟨fun h => ⟨fun h => absurd h hrev, fun _ => h,
      fun h => absurd hlife h⟩, fun h => h.resolved hres⟩
  by_cases hlife : actType ∈ lifecycleActTypes
  · -- Any other stage: nothing is asked of its chain.
    rw [CommitGate.requireStructuralProof, if_neg hrev, run_bind, run_links]
    dsimp only
    rw [if_neg hres, if_pos hlife]
    constructor
    · intro heq
      cases heq
      exact ⟨rfl, fun h => absurd h hrev, fun h => absurd h hres, fun h => absurd hlife h⟩
    · rintro ⟨rfl, -⟩
      rfl
  · rw [run_requireStructuralProof_consequence hlife]
    exact and_congr_right fun _ => ⟨fun h => ⟨fun h => absurd h hrev, fun h => absurd h hres,
      fun _ => h⟩, fun h => h.consequential hlife⟩

end Structural

/-! ### The other checks -/

section Checks

variable {s t : MemoryLedger} {c : Submission} {commandHash contextHash : Hash}

/-- The check that one Command buys one change passes when its Command has no consequence
yet; a stage is not asked. -/
theorem run_alreadySettled_ok {actType : String} :
    (CommitGate.alreadySettled actType commandHash).run (MemoryLedger.handle known) s
      = (.ok false, t) ↔
    t = s ∧ (actType ∉ lifecycleActTypes → ∃ owned, s.getActsForCommand commandHash = .ok owned ∧
      ∀ b ∈ owned, b.actType ∈ lifecycleActTypes) := by
  by_cases hcons : actType ∉ lifecycleActTypes
  · rw [CommitGate.alreadySettled, if_pos hcons, run_bind_ok]
    simp only [MemoryLedger.run_getActsForCommand, Prod.mk.injEq]
    constructor
    · rintro ⟨owned, _, ⟨howned, rfl⟩, hrun⟩
      obtain ⟨hany, rfl⟩ := Prod.mk.inj hrun
      refine ⟨rfl, fun _ => ⟨owned, howned, fun b hb => ?_⟩⟩
      by_contra hb'
      exact List.any_eq_false.mp (Except.ok.inj hany) b hb (decide_eq_true hb')
    · rintro ⟨rfl, h⟩
      obtain ⟨owned, howned, hstages⟩ := h hcons
      refine ⟨owned, t, ⟨howned, rfl⟩, ?_⟩
      have hany : (owned.any fun act => decide (act.actType ∉ lifecycleActTypes)) = false :=
        List.any_eq_false.mpr fun b hb => by simpa using hstages b hb
      rw [hany]
      rfl
  · rw [CommitGate.alreadySettled, if_neg hcons]
    constructor
    · intro hrun
      cases hrun
      exact ⟨rfl, fun h => absurd h hcons⟩
    · rintro ⟨rfl, -⟩
      rfl

/-- A search for a name that is not registered, or for an Act that is not stored. -/
theorem run_anyM_not {α : Type} {f : α → LedgerM Bool} {g : α → Bool}
    (hf : ∀ a, (f a).run (MemoryLedger.handle known) s = (.ok (g a), s)) (l : List α) :
    (l.anyM fun a => do
      let known ← f a
      return !known).run (MemoryLedger.handle known) s = (.ok (l.any fun a => !g a), s) :=
  run_anyM_of_eq (fun a => by rw [run_bind, hf]; rfl) l

theorem all_of_not_any_not {α : Type} {g : α → Bool} {l : List α}
    (h : ¬(l.any fun a => !g a) = true) : ∀ a ∈ l, g a = true := by
  intro a ha
  by_contra hne
  exact h (List.any_eq_true.mpr ⟨a, ha, by rw [Bool.not_eq_true']; exact eq_false_of_ne_true hne⟩)

theorem not_any_not_of_all {α : Type} {g : α → Bool} {l : List α} (h : ∀ a ∈ l, g a = true) :
    ¬(l.any fun a => !g a) = true := by
  intro hany
  obtain ⟨a, ha, hne⟩ := List.any_eq_true.mp hany
  rw [h a ha] at hne
  cases hne

/-- **The checks of the gate**, with the two hashes they are made with. -/
def CommitGate.checks (P : Primitives) (c : Submission) : LedgerM (Hash × Hash) := do
  raiseWhen (c.decision.outcome ∉ permittedOutcomes c.actType)
    (commitError (outcomeRefusal c.actType c.decision.outcome))
  let commandHash ← ofExcept (c.command.hash P)
  let contextHash ← ofExcept (c.context.hash P)
  let settled ← alreadySettled c.actType commandHash
  raiseWhen (settled = true) (commitError "Command already produced a consequential Act")
  requireStructuralProof P c.command commandHash c.actType c.authChain
  let currentCut ← historyCut
  raiseWhen (currentCut ≠ c.decision.cut)
    (commitError "history advanced after authorization; reauthorization required")
  let commandTyped ← registered "command_type" c.command.commandType c.decision.registryCut
  raiseWhen (commandTyped = false) (commitError "unregistered command type")
  let actTyped ← registered "act_type" c.actType c.decision.registryCut
  raiseWhen (actTyped = false) (commitError "unregistered act type")
  raiseWhen (c.decision.ruleHashes = [])
    (commitError "consequential commit requires at least one Rule")
  let strayRule ← c.decision.ruleHashes.anyM fun ruleHash => do
    let known ← registered "rule" ruleHash c.decision.registryCut
    return !known
  raiseWhen (strayRule = true) (commitError "unregistered Rule at declared Registry cut")
  let strayKey ← c.context.values.keys.anyM fun key => do
    let known ← registered "context_type" key c.decision.registryCut
    return !known
  raiseWhen (strayKey = true)
    (commitError "unregistered Context type at declared Registry cut")
  let stored ← hasObject c.command.payloadHash
  raiseWhen (stored = false) (commitError "payload must already exist in CAS")
  let orphan ← c.command.parents.anyM fun parent => do
    let known ← hasAct parent
    return !known
  raiseWhen (orphan = true) (commitError "every parent must be an existing Act")
  return (commandHash, contextHash)

/-- **The body of the gate is its checks, and then its writes.** -/
theorem CommitGate.commitFresh_eq (value : CanonValue) (actHash : Hash) :
    commitFresh P c value actHash
      = checks P c >>= fun hashes => write P c value actHash hashes.1 hashes.2 := by
  simp only [commitFresh, checks, LawfulMonad.bind_assoc, pure_bind]

/-- **The checks of the gate read only.** -/
theorem CommitGate.only_checks : (checks P c).Only LedgerOp.IsGateRead := by
  refine .bind (.raiseWhen _ _) fun _ => .bind (.ofExcept _) fun commandHash => ?_
  refine .bind (.ofExcept _) fun contextHash => .bind (only_alreadySettled _ _) fun _ => ?_
  refine .bind (.raiseWhen _ _) fun _ => .bind (only_requireStructuralProof _ _ _ _) fun _ => ?_
  refine .bind (.call trivial) fun _ => .bind (.raiseWhen _ _) fun _ => ?_
  refine .bind (.call trivial) fun _ => .bind (.raiseWhen _ _) fun _ => ?_
  refine .bind (.call trivial) fun _ => .bind (.raiseWhen _ _) fun _ => ?_
  refine .bind (.raiseWhen _ _) fun _ =>
    .bind (only_anyM_not (fun _ => .call trivial) _) fun _ => ?_
  refine .bind (.raiseWhen _ _) fun _ =>
    .bind (only_anyM_not (fun _ => .call trivial) _) fun _ => ?_
  refine .bind (.raiseWhen _ _) fun _ => .bind (.call trivial) fun _ => ?_
  refine .bind (.raiseWhen _ _) fun _ =>
    .bind (only_anyM_not (fun _ => .call trivial) _) fun _ => ?_
  exact .bind (.raiseWhen _ _) fun _ => .pure _

/-- **What the checks of the gate ask of the state**, for a call whose Command and Context
have these hashes. -/
structure Checked (P : Primitives) (known : MemoryLedger → String → String → Cut → Bool)
    (s : MemoryLedger) (c : Submission) (commandHash contextHash : Hash) : Prop where
  permitted : c.decision.outcome ∈ permittedOutcomes c.actType
  commandHashed : c.command.hash P = .ok commandHash
  contextHashed : c.context.hash P = .ok contextHash
  unsettled : c.actType ∉ lifecycleActTypes →
    ∃ owned, s.getActsForCommand commandHash = .ok owned ∧
      ∀ b ∈ owned, b.actType ∈ lifecycleActTypes
  structural : StructuralProof P s.toMemoryStore c.command commandHash c.actType c.authChain
  cut : c.decision.cut = s.historyCut
  commandTyped : known s "command_type" c.command.commandType c.decision.registryCut = true
  actTyped : known s "act_type" c.actType c.decision.registryCut = true
  ruled : c.decision.ruleHashes ≠ []
  rulesKnown : ∀ h ∈ c.decision.ruleHashes, known s "rule" h c.decision.registryCut = true
  keysKnown : ∀ k ∈ c.context.values.keys,
    known s "context_type" k c.decision.registryCut = true
  payload : (s.objects.get? c.command.payloadHash).isSome
  parents : ∀ p ∈ c.command.parents, (s.acts.get? p).isSome

/-- **The checks of the gate pass exactly on what they ask.** -/
theorem run_checks_ok {hashes : Hash × Hash} :
    (CommitGate.checks P c).run (MemoryLedger.handle known) s = (.ok hashes, t) ↔
      t = s ∧ Checked P known s c hashes.1 hashes.2 := by
  constructor
  · intro hrun
    rw [CommitGate.checks] at hrun
    -- The checks, in the order in which the gate makes them.
    obtain ⟨hpermitted, hrun⟩ := run_raiseWhen_bind_ok.mp hrun
    obtain ⟨commandHash, hcommand, hrun⟩ := run_ofExcept_bind_ok.mp hrun
    obtain ⟨contextHash, hcontext, hrun⟩ := run_ofExcept_bind_ok.mp hrun
    obtain ⟨settled, s₁, hsettled, hrun⟩ := run_bind_ok.mp hrun
    obtain ⟨hunsettled, hrun⟩ := run_raiseWhen_bind_ok.mp hrun
    rw [eq_false_of_ne_true hunsettled] at hsettled
    obtain ⟨hsame, hunsettled⟩ := run_alreadySettled_ok.mp hsettled
    rw [hsame] at hrun
    obtain ⟨_, s₂, hproof, hrun⟩ := run_bind_ok.mp hrun
    obtain ⟨hsame', hstructural⟩ := run_requireStructuralProof_ok.mp hproof
    rw [hsame', run_bind_of_eq MemoryLedger.run_historyCut] at hrun
    obtain ⟨hcut, hrun⟩ := run_raiseWhen_bind_ok.mp hrun
    rw [run_bind_of_eq MemoryLedger.run_registered] at hrun
    obtain ⟨hcommandTyped, hrun⟩ := run_raiseWhen_bind_ok.mp hrun
    rw [run_bind_of_eq MemoryLedger.run_registered] at hrun
    obtain ⟨hactTyped, hrun⟩ := run_raiseWhen_bind_ok.mp hrun
    obtain ⟨hruled, hrun⟩ := run_raiseWhen_bind_ok.mp hrun
    rw [run_bind_of_eq (run_anyM_not (fun _ => MemoryLedger.run_registered) _)] at hrun
    obtain ⟨hrules, hrun⟩ := run_raiseWhen_bind_ok.mp hrun
    rw [run_bind_of_eq (run_anyM_not (fun _ => MemoryLedger.run_registered) _)] at hrun
    obtain ⟨hkeys, hrun⟩ := run_raiseWhen_bind_ok.mp hrun
    rw [run_bind_of_eq MemoryLedger.run_hasObject] at hrun
    obtain ⟨hpayload, hrun⟩ := run_raiseWhen_bind_ok.mp hrun
    rw [run_bind_of_eq (run_anyM_not (fun _ => MemoryLedger.run_hasAct) _)] at hrun
    obtain ⟨hparents, hrun⟩ := run_raiseWhen_bind_ok.mp hrun
    cases hrun
    exact ⟨rfl, {
      permitted := not_not.mp hpermitted
      commandHashed := hcommand
      contextHashed := hcontext
      unsettled := hunsettled
      structural := hstructural
      cut := (not_not.mp hcut).symm
      commandTyped := eq_true_of_ne_false hcommandTyped
      actTyped := eq_true_of_ne_false hactTyped
      ruled := hruled
      rulesKnown := all_of_not_any_not hrules
      keysKnown := all_of_not_any_not hkeys
      payload := eq_true_of_ne_false hpayload
      parents := all_of_not_any_not hparents }⟩
  · rintro ⟨rfl, h⟩
    have hproof : (CommitGate.requireStructuralProof P c.command hashes.1 c.actType
        c.authChain).run (MemoryLedger.handle known) t = (.ok (), t) :=
      run_requireStructuralProof_ok.mpr ⟨rfl, h.structural⟩
    rw [CommitGate.checks]
    refine run_raiseWhen_bind_ok.mpr ⟨not_not.mpr h.permitted, ?_⟩
    refine run_ofExcept_bind_ok.mpr ⟨_, h.commandHashed, ?_⟩
    refine run_ofExcept_bind_ok.mpr ⟨_, h.contextHashed, ?_⟩
    rw [run_bind_of_eq (run_alreadySettled_ok.mpr ⟨rfl, h.unsettled⟩)]
    refine run_raiseWhen_bind_ok.mpr ⟨Bool.false_ne_true, ?_⟩
    rw [run_bind_of_eq hproof, run_bind_of_eq MemoryLedger.run_historyCut]
    refine run_raiseWhen_bind_ok.mpr ⟨not_not.mpr h.cut.symm, ?_⟩
    rw [run_bind_of_eq MemoryLedger.run_registered]
    refine run_raiseWhen_bind_ok.mpr ⟨ne_false_of_eq_true h.commandTyped, ?_⟩
    rw [run_bind_of_eq MemoryLedger.run_registered]
    refine run_raiseWhen_bind_ok.mpr ⟨ne_false_of_eq_true h.actTyped, ?_⟩
    refine run_raiseWhen_bind_ok.mpr ⟨h.ruled, ?_⟩
    rw [run_bind_of_eq (run_anyM_not (fun _ => MemoryLedger.run_registered) _)]
    refine run_raiseWhen_bind_ok.mpr ⟨not_any_not_of_all h.rulesKnown, ?_⟩
    rw [run_bind_of_eq (run_anyM_not (fun _ => MemoryLedger.run_registered) _)]
    refine run_raiseWhen_bind_ok.mpr ⟨not_any_not_of_all h.keysKnown, ?_⟩
    rw [run_bind_of_eq MemoryLedger.run_hasObject]
    refine run_raiseWhen_bind_ok.mpr ⟨ne_false_of_eq_true h.payload, ?_⟩
    rw [run_bind_of_eq (run_anyM_not (fun _ => MemoryLedger.run_hasAct) _)]
    refine run_raiseWhen_bind_ok.mpr ⟨not_any_not_of_all h.parents, ?_⟩
    rfl

end Checks

end PowerfarmKernel
