import PowerfarmKernel.Kernel.History

/-!
# The lifecycle of a Command

`LifecycleService` of `service/lifecycle.py` answers how far a Command has come: it
splits the Acts the Command owns into stages and consequential Acts and projects a
status from their types. It decides nothing.

The gate decides separately, and its check of a consequence does not look at stages
other than reviews. So a Command that was denied, rejected, superseded or expired is
not out of the game: `PowerfarmKernel.Gate.terminal_or_committed` says what its status
can still become, and how.
-/

namespace PowerfarmKernel

open Prog LedgerM

namespace LifecycleService

/-- The stages that end a trajectory, as long as nothing was committed. -/
def terminal : List String :=
  ["CommandRejected", "CommandDenied", "CommandSuperseded", "CommandExpired"]

/-- A stage, as a status lists it. -/
structure Stage where
  actType : String
  act : Hash
  claimedWhen : Option String
deriving DecidableEq

/-- The status of a Command. -/
structure Status where
  commandHash : Hash
  lifecycle : List Stage
  consequentialAct : Option Hash
  status : String
deriving DecidableEq

/-- `LifecycleService._status`: merely existing never implies that the intended change
occurred. -/
def statusText (recorded : List String) (committed : Bool) : String :=
  if committed then "committed"
  else match (recorded.filter fun stage => stage ∈ terminal).min? with
    | some stage => stage
    | none =>
        -- `ReviewRequested` blocks the Command until `AuthorizationResolved`.
        if "ReviewRequested" ∈ recorded ∧ "AuthorizationResolved" ∉ recorded then "pending_review"
        else if recorded ≠ [] then "pending"
        else "not_submitted"

/-- The status projected from the Acts a Command owns. -/
def project (commandHash : Hash) (acts : List Act) : Status :=
  let stages := acts.filter fun act => act.actType ∈ lifecycleActTypes
  let consequential := acts.filter fun act => act.actType ∉ lifecycleActTypes
  { commandHash := commandHash
    lifecycle := stages.map fun act => ⟨act.actType, act.hash, act.claimedWhen⟩
    consequentialAct := consequential.head?.map Act.hash
    status := statusText (stages.map Act.actType) (consequential ≠ []) }

/-- `LifecycleService.status`. -/
def status (commandHash : Hash) : LedgerM Status := do
  let acts ← getActsForCommand commandHash
  return project commandHash acts

/-! ### The status text -/

theorem statusText_committed (recorded : List String) :
    statusText recorded true = "committed" := if_pos rfl

/-- Where nothing was committed, a terminal stage is the status. -/
theorem statusText_terminal {recorded : List String} (h : ∃ stage ∈ recorded, stage ∈ terminal) :
    statusText recorded false ∈ terminal := by
  obtain ⟨stage, hstage, hterminal⟩ := h
  rw [statusText, if_neg (by decide)]
  rcases hmin : (recorded.filter fun stage => stage ∈ terminal).min? with _ | least
  · rw [List.min?_eq_none_iff] at hmin
    have hmem : stage ∈ recorded.filter fun stage => stage ∈ terminal :=
      List.mem_filter.mpr ⟨hstage, decide_eq_true hterminal⟩
    rw [hmin] at hmem
    exact absurd hmem List.not_mem_nil
  · have hmem := List.min?_mem hmin
    exact of_decide_eq_true (List.mem_filter.mp hmem).2

/-- **The status is `committed` exactly where a consequential Act is owned.** -/
theorem project_committed {commandHash : Hash} {acts : List Act}
    (h : ∃ a ∈ acts, a.IsConsequential) : (project commandHash acts).status = "committed" := by
  obtain ⟨a, ha, hcons⟩ := h
  have hne : acts.filter (fun act => act.actType ∉ lifecycleActTypes) ≠ [] :=
    List.ne_nil_of_mem (List.mem_filter.mpr ⟨ha, decide_eq_true hcons⟩)
  have hstatus : (project commandHash acts).status
      = statusText ((acts.filter fun act => act.actType ∈ lifecycleActTypes).map Act.actType)
        (acts.filter (fun act => act.actType ∉ lifecycleActTypes) ≠ []) := rfl
  rw [hstatus, decide_eq_true hne, statusText_committed]

/-- Where no consequential Act is owned, a terminal stage is the status. -/
theorem project_terminal {commandHash : Hash} {acts : List Act}
    (hopen : ∀ a ∈ acts, a.IsLifecycle) (h : ∃ a ∈ acts, a.actType ∈ terminal) :
    (project commandHash acts).status ∈ terminal := by
  have hnil : acts.filter (fun act => act.actType ∉ lifecycleActTypes) = [] := by
    rw [List.filter_eq_nil_iff]
    intro a ha
    rw [decide_eq_true_eq, not_not]
    exact hopen a ha
  have hstatus : (project commandHash acts).status
      = statusText ((acts.filter fun act => act.actType ∈ lifecycleActTypes).map Act.actType)
        (acts.filter (fun act => act.actType ∉ lifecycleActTypes) ≠ []) := rfl
  rw [hstatus, hnil]
  obtain ⟨a, ha, hterminal⟩ := h
  refine statusText_terminal ⟨a.actType, ?_, hterminal⟩
  exact List.mem_map.mpr ⟨a, List.mem_filter.mpr ⟨ha, decide_eq_true (hopen a ha)⟩, rfl⟩

end LifecycleService

namespace Gate

open Runs LifecycleService

variable {P : Primitives} {known : MemoryLedger → String → String → Cut → Bool}
  {s : MemoryLedger} {calls pre : List Submission} {commandHash : Hash}

/-- The status text a ledger reports for a Command. -/
def reported (known : MemoryLedger → String → String → Cut → Bool) (s : MemoryLedger)
    (commandHash : Hash) : Except Raised String :=
  ((status commandHash).run (MemoryLedger.handle known) s).1.map Status.status

theorem reported_eq {owned : List Act} (h : s.getActsForCommand commandHash = .ok owned) :
    reported known s commandHash = .ok (LifecycleService.project commandHash owned).status := by
  rw [reported, status, run_bind, MemoryLedger.run_getActsForCommand, h]
  rfl

/-- A Command that owns a consequential Act is reported as committed. -/
theorem IndexBacked.reported_committed (hs : IndexBacked s)
    (h : ∃ a, Owned s commandHash a ∧ a.IsConsequential) :
    reported known s commandHash = .ok "committed" := by
  obtain ⟨owned, howned, hmem⟩ := hs.owned commandHash
  obtain ⟨a, ha, hcons⟩ := h
  rw [reported_eq howned, project_committed ⟨a, (hmem a).mpr ha, hcons⟩]

/-- A Command that owns a terminal stage and no consequential Act is reported at a
terminal stage. -/
theorem IndexBacked.reported_terminal (hs : IndexBacked s)
    (hterminal : ∃ a, Owned s commandHash a ∧ a.actType ∈ terminal)
    (hopen : ∀ a, Owned s commandHash a → a.IsLifecycle) :
    ∃ stage ∈ terminal, reported known s commandHash = .ok stage := by
  obtain ⟨owned, howned, hmem⟩ := hs.owned commandHash
  obtain ⟨a, ha, hstage⟩ := hterminal
  have hstatus : (LifecycleService.project commandHash owned).status ∈ terminal :=
    project_terminal (fun b hb => hopen b ((hmem b).mp hb)) ⟨a, (hmem a).mpr ha, hstage⟩
  exact ⟨_, hstatus, reported_eq howned⟩

/-- A consequential Act that a Command came to own was admitted under `allow`, having
decided on everything before it. -/
theorem admitted_of_owned {a : Act} (hpre : pre <+: calls)
    (hopen : ∀ a, Owned (exec P known s pre) commandHash a → a.IsLifecycle)
    (ha : Owned (exec P known s calls) commandHash a) (hcons : a.IsConsequential)
    (hs : IndexBacked s) :
    ∃ pre' c, pre <+: pre' ∧ Admitted P known s calls pre' c a ∧ c.decision.outcome = .allow := by
  obtain ⟨k, hk, hget⟩ := ha
  rcases mem_indexed_cases hpre hk with hearlier | ⟨pre', c, a', hle, hadm, rfl, -⟩
  · obtain ⟨b, hb⟩ := hs.exec pre commandHash k hearlier
    have heq := hget.symm.trans (acts_le_exec hpre _ _ hb)
    cases heq
    exact absurd (hopen a ⟨k, hearlier, hb⟩) hcons
  · have heq := hget.symm.trans hadm.get?
    cases heq
    have hspec := hadm.admits.admission
    have hpermitted := hspec.permitted
    rw [← hspec.actType, permittedOutcomes_of_consequential hcons] at hpermitted
    exact ⟨pre', c, hle, hadm, List.mem_singleton.mp hpermitted⟩

/-- **A terminal stage is left for `committed` alone.** Once a Command owns a terminal
stage and no consequential Act, every later state reports it at a terminal stage or as
committed. It is committed only when a later call has admitted a consequential Act of
it, under an `allow` Decision taken at a cut that contains everything before, the
terminal stage included; and then it stays committed. -/
theorem terminal_or_committed (P : Primitives)
    (known : MemoryLedger → String → String → Cut → Bool) (s : MemoryLedger)
    (hs : IndexBacked s) (commandHash : Hash) (pre calls : List Submission) (hpre : pre <+: calls)
    (ended : Act) (hended : Owned (exec P known s pre) commandHash ended)
    (hterminal : ended.actType ∈ terminal)
    (hopen : ∀ a, Owned (exec P known s pre) commandHash a → a.IsLifecycle) :
    (∃ stage ∈ terminal, reported known (exec P known s calls) commandHash = .ok stage ∧
        ∀ a, Owned (exec P known s calls) commandHash a → a.IsLifecycle) ∨
      ∃ pre' c a, pre <+: pre' ∧ Admitted P known s calls pre' c a ∧
        Owned (exec P known s calls) commandHash a ∧ a.IsConsequential ∧
        c.decision.outcome = .allow ∧ (∀ k, k ∈ a.decisionCut ↔ k ∈ stored (exec P known s pre')) ∧
        (∃ k ∈ a.decisionCut, (exec P known s calls).acts.get? k = some ended) ∧
        ∀ calls', calls <+: calls' →
          reported known (exec P known s calls') commandHash = .ok "committed" := by
  -- Committed or not is a matter of the Acts that are there in the end.
  by_cases hcons : ∃ a, Owned (exec P known s calls) commandHash a ∧ a.IsConsequential
  · right
    obtain ⟨a, ha, hcons⟩ := hcons
    obtain ⟨pre', c, hle, hadm, hallow⟩ := admitted_of_owned hpre hopen ha hcons hs
    obtain ⟨k, -, hk⟩ := hended
    refine ⟨pre', c, a, hle, hadm, ha, hcons, hallow, fun k => hadm.mem_decisionCut, ?_, ?_⟩
    · refine ⟨k, hadm.mem_decisionCut.mpr ?_, acts_le_exec hpre _ _ hk⟩
      exact Dict.mem_keys_of_get? (acts_le_exec hle _ _ hk)
    · intro calls' hcalls
      exact (hs.exec calls').reported_committed ⟨a, ha.exec hcalls, hcons⟩
  · left
    have hlife : ∀ a, Owned (exec P known s calls) commandHash a → a.IsLifecycle := by
      intro a ha
      by_contra hnot
      exact hcons ⟨a, ha, hnot⟩
    obtain ⟨stage, hstage, hreported⟩ :=
      (hs.exec calls).reported_terminal ⟨ended, hended.exec hpre, hterminal⟩ hlife
    exact ⟨stage, hstage, hreported, hlife⟩

/-- A Command is denied. -/
def denial : Submission := Sample.ask Sample.create "CommandDenied" .deny {"0000"} []

/-- The Act `denial` asks for. -/
def denied : Act := CommitGate.actOf denial "8c7d" Sample.created "736b"

/-- The change the Command asks for, after its denial. -/
def lateChange : Submission := Sample.ask Sample.create "ThingCreated" .allow {"0000", "8c7d"} []

/-- The Act `lateChange` asks for. -/
def changedLate : Act := CommitGate.actOf lateChange "6d7e" Sample.created "736b"

/-- Both calls admit their Acts. -/
theorem entries_changedLate :
    (exec (Sample.primitives "") MemoryLedger.registered Sample.store
        [denial, lateChange]).acts.entries
      = [("0000", Sample.genesis ""), ("8c7d", denied), ("6d7e", changedLate)] := by
  decide +kernel

theorem admitted_changedLate : Admitted (Sample.primitives "") MemoryLedger.registered Sample.store
    [denial, lateChange] [denial] lateChange changedLate :=
  .of_full (congrArg List.length entries_changedLate) List.prefix_rfl
    (by rw [entries_changedLate]; rfl)

theorem admitted_denied : Admitted (Sample.primitives "") MemoryLedger.registered Sample.store
    [denial] [] denial denied := by
  have hadm : Admitted (Sample.primitives "") MemoryLedger.registered Sample.store
      [denial, lateChange] [] denial denied :=
    .of_full (congrArg List.length entries_changedLate) (List.prefix_append [denial] _)
      (by rw [entries_changedLate]; rfl)
  exact ⟨List.prefix_rfl, hadm.admits⟩

theorem indexBacked_store : IndexBacked Sample.store :=
  fun _ _ hk => absurd hk List.not_mem_nil

/-- After the denial, the Command owns its denial only. -/
theorem isLifecycle_of_owned_denied {a : Act} (ha : Owned (exec (Sample.primitives "")
    MemoryLedger.registered Sample.store [denial]) Sample.created a) : a.IsLifecycle := by
  obtain ⟨k, hk, hget⟩ := ha
  rcases (mem_indexed_iff admitted_denied.admits.placed).mp hk with hk | ⟨rfl, -⟩
  · exact absurd hk List.not_mem_nil
  · have hstored := admitted_denied.get?
    rw [hget] at hstored
    cases hstored
    decide

/-- After the denial, the Command is committed by an `allow` Decision that saw it. -/
theorem terminal_or_committed_denied :
    ∃ pre c a, Admitted (Sample.primitives "") MemoryLedger.registered Sample.store
        [denial, lateChange] pre c a ∧ c.decision.outcome = .allow ∧ "8c7d" ∈ a.decisionCut := by
  rcases terminal_or_committed (Sample.primitives "") MemoryLedger.registered Sample.store
      indexBacked_store Sample.created [denial] [denial, lateChange] ⟨[lateChange], rfl⟩ denied
      admitted_denied.owned (by decide) fun a => isLifecycle_of_owned_denied with
    ⟨-, -, -, hlife⟩ | ⟨pre, c, a, -, hadm, -, -, hallow, -, ⟨k, hk, hget⟩, -⟩
  · exact absurd (hlife changedLate admitted_changedLate.owned) (by decide)
  · have hkeys : ∀ e ∈ (exec (Sample.primitives "") MemoryLedger.registered Sample.store
        [denial, lateChange]).acts.entries, e.2 = denied → e.1 = "8c7d" := by
      rw [entries_changedLate]
      decide
    have hk' := hkeys _ (Dict.get?_eq_some_iff.mp hget) rfl
    exact ⟨pre, c, a, hadm, hallow, hk' ▸ hk⟩

/-- **A terminal stage is not final.** The Command is denied and owns nothing else; the
next call admits its change, and its status is `committed`. -/
theorem committed_after_denial :
    (Owned (exec (Sample.primitives "") MemoryLedger.registered Sample.store [denial])
        Sample.created denied ∧ denied.actType ∈ terminal ∧
      ∀ a, Owned (exec (Sample.primitives "") MemoryLedger.registered Sample.store [denial])
        Sample.created a → a.IsLifecycle) ∧
      Admitted (Sample.primitives "") MemoryLedger.registered Sample.store
        [denial, lateChange] [denial] lateChange changedLate ∧
      changedLate.commandHash = Sample.created ∧ changedLate.IsConsequential ∧
      reported MemoryLedger.registered (exec (Sample.primitives "") MemoryLedger.registered
        Sample.store [denial, lateChange]) Sample.created = .ok "committed" := by
  refine ⟨⟨admitted_denied.owned, by decide, fun a => isLifecycle_of_owned_denied⟩,
    admitted_changedLate, rfl, by decide, ?_⟩
  exact (indexBacked_store.exec _).reported_committed
    ⟨changedLate, admitted_changedLate.owned, by decide⟩

end Gate

end PowerfarmKernel
