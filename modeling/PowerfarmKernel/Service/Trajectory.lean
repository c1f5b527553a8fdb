import PowerfarmKernel.Kernel.Review
import PowerfarmKernel.Ledger.Coherence
import PowerfarmKernel.Service.Lifecycle

/-!
# The trajectory of a Command

`LifecycleService.trajectory` reconstructs how the authorization of a Command came about:
the Acts the Command owns, and the Acts of other Commands that take part because a chain
of an owned Act links them – above all the reviews, which belong to the reviewers' own
Commands.

The reconstruction walks through the chains and collects what it finds under its hash, so
a link that occurs in several chains is listed once, and a link to an owned Act or to no
Act at all is passed over. `PowerfarmKernel.Gate.trajectory_exact` says that nothing is
missing from it and nothing listed that does not belong there.
-/

namespace PowerfarmKernel

open Prog LedgerM

namespace LifecycleService

/-- An Act, as a trajectory lists it. -/
structure Node where
  act : Hash
  actType : String
  claimedWhen : Option String
deriving DecidableEq

/-- An Act of another Command that takes part, with the Command it belongs to. -/
structure Participant extends Node where
  ownedByCommand : Hash
deriving DecidableEq

/-- The trajectory of a Command. -/
structure Trajectory where
  commandHash : Hash
  owned : List Node
  participating : List Participant
  status : String
deriving DecidableEq

/-- `LifecycleService._node`. -/
def node (act : Act) : Node := ⟨act.hash, act.actType, act.claimedWhen⟩

/-- An Act that takes part. -/
def participant (act : Act) : Participant := ⟨node act, act.commandHash⟩

/-- One link of a chain: an owned Act is passed over, and so is a link to no Act. -/
def collect (owned : List Act) (participating : Dict Hash Act) (link : Hash) :
    LedgerM (Dict Hash Act) :=
  if owned.any fun other => link = other.hash then pure participating
  else do
    let linked ← getAct link
    match linked with
    | some act => return participating.set act.hash act
    | none => return participating

/-- `LifecycleService.trajectory`. -/
def trajectory (commandHash : Hash) : LedgerM Trajectory := do
  let owned ← getActsForCommand commandHash
  let participating ← owned.foldlM (fun participating act =>
    act.authChain.foldlM (collect owned) participating) Dict.empty
  let current ← status commandHash
  return {
    commandHash := commandHash
    owned := owned.map node
    participating := participating.values.map participant
    status := current.status }

/-! ### What the walk collects -/

section Collect

variable {known : MemoryLedger → String → String → Cut → Bool} {s : MemoryLedger}
  {owned : List Act} {participating : Dict Hash Act} {k link commandHash : Hash} {a b : Act}

/-- What one link contributes. -/
def contribution (s : MemoryLedger) (owned : List Act) (link : Hash) : Option (Hash × Act) :=
  if owned.any fun other => link = other.hash then none
  else (s.acts.get? link).map fun act => (act.hash, act)

/-- What the chains of the owned Acts contribute, under their hashes. -/
def participants (s : MemoryLedger) (owned : List Act) : Dict Hash Act :=
  Dict.empty.merge ((owned.flatMap Act.authChain).filterMap (contribution s owned))

theorem run_collect :
    (collect owned participating link).run (MemoryLedger.handle known) s
      = (.ok (match contribution s owned link with
          | some e => participating.set e.1 e.2
          | none => participating), s) := by
  rw [collect, contribution]
  by_cases hown : (owned.any fun other => decide (link = other.hash)) = true
  · rw [if_pos hown, if_pos hown]
    rfl
  · rw [if_neg hown, if_neg hown, run_bind_of_eq MemoryLedger.run_getAct]
    rcases s.acts.get? link with _ | act
    · rfl
    · rfl

/-- **The two loops are one merge.** -/
theorem run_collectAll :
    (owned.foldlM (fun participating (act : Act) =>
        act.authChain.foldlM (collect owned) participating) Dict.empty).run
          (MemoryLedger.handle known) s
      = (.ok (participants s owned), s) := by
  have hchain : ∀ (participating : Dict Hash Act) (act : Act),
      (act.authChain.foldlM (collect owned) participating).run (MemoryLedger.handle known) s
        = (.ok (participating.merge (act.authChain.filterMap (contribution s owned))), s) := by
    intro participating act
    rw [run_foldlM_of_eq (fun _ _ => run_collect), Dict.merge, List.foldl_filterMap]
    refine congrArg (fun f => (Except.ok (act.authChain.foldl f participating), s)) ?_
    funext participating link
    rcases contribution s owned link with _ | e
    · rfl
    · rfl
  rw [run_foldlM_of_eq hchain, participants, List.filterMap_flatMap, Dict.merge, List.foldl_flatMap]
  rfl

/-- **What takes part**: the stored Acts that a chain of an owned Act links and that are not
owned themselves. -/
theorem get?_participants (hs : Gate.Keyed s) :
    (participants s owned).get? k = some b ↔
      s.acts.get? k = some b ∧ (∃ a ∈ owned, k ∈ a.authChain) ∧ ∀ a ∈ owned, a.hash ≠ k := by
  have hcontribution : ∀ {link : Hash} {e : Hash × Act}, contribution s owned link = some e ↔
      s.acts.get? link = some e.2 ∧ e.1 = link ∧ ∀ a ∈ owned, a.hash ≠ link := by
    intro link e
    rw [contribution]
    by_cases hown : (owned.any fun other => decide (link = other.hash)) = true
    · obtain ⟨a, ha, heq⟩ := List.any_eq_true.mp hown
      rw [if_pos hown]
      exact iff_of_false (Option.some_ne_none e).symm fun h =>
        h.2.2 a ha (of_decide_eq_true heq).symm
    · have hnone : ∀ a ∈ owned, a.hash ≠ link := fun a ha heq =>
        hown (List.any_eq_true.mpr ⟨a, ha, decide_eq_true heq.symm⟩)
      rw [if_neg hown, Option.map_eq_some_iff]
      constructor
      · rintro ⟨act, hact, rfl⟩
        exact ⟨hact, hs link act hact, hnone⟩
      · rintro ⟨hact, rfl, -⟩
        exact ⟨e.2, hact, Prod.ext (hs _ _ hact) rfl⟩
  have hmem : ∀ {k b}, (k, b) ∈ (owned.flatMap Act.authChain).filterMap (contribution s owned) ↔
      s.acts.get? k = some b ∧ (∃ a ∈ owned, k ∈ a.authChain) ∧ ∀ a ∈ owned, a.hash ≠ k := by
    intro k b
    simp only [List.mem_filterMap, List.mem_flatMap, hcontribution]
    constructor
    · rintro ⟨link, hlink, hget, rfl, hnone⟩
      exact ⟨hget, hlink, hnone⟩
    · rintro ⟨hget, hlink, hnone⟩
      exact ⟨k, hlink, hget, rfl, hnone⟩
  rw [participants, Dict.get?_merge_empty, hmem]
  -- One hash contributes one Act.
  intro k b b' hb hb'
  have heq := (hmem.mp hb).1.symm.trans (hmem.mp hb').1
  exact Option.some.inj heq

/-- The trajectory of a Command, read off the Acts it owns. -/
def trajectoryOf (s : MemoryLedger) (commandHash : Hash) (owned : List Act) : Trajectory where
  commandHash := commandHash
  owned := owned.map node
  participating := (participants s owned).values.map participant
  status := (project commandHash owned).status

/-- **That is what the code reconstructs**, and nothing is written. -/
theorem run_trajectory (h : s.getActsForCommand commandHash = .ok owned) :
    (trajectory commandHash).run (MemoryLedger.handle known) s
      = (.ok (trajectoryOf s commandHash owned), s) := by
  have hrun : (getActsForCommand commandHash).run (MemoryLedger.handle known) s
      = (.ok owned, s) := by
    rw [MemoryLedger.run_getActsForCommand, h]
  have hstatus : (status commandHash).run (MemoryLedger.handle known) s
      = (.ok (project commandHash owned), s) := by
    rw [status, run_bind_of_eq hrun]
    rfl
  rw [trajectory, run_bind_of_eq hrun, run_bind_of_eq run_collectAll, run_bind_of_eq hstatus]
  rfl

end Collect

end LifecycleService

/-! ### The trajectory after a run -/

namespace Gate

open Runs LifecycleService

variable {P : Primitives} {known : MemoryLedger → String → String → Cut → Bool}
  {s : MemoryLedger} {calls pre pre' : List Submission} {c c' : Submission} {a a' b : Act}
  {commandHash : Hash} {T : Trajectory}

/-- An Act appears in a trajectory. -/
def Appears (T : Trajectory) (b : Act) : Prop :=
  node b ∈ T.owned ∨ participant b ∈ T.participating

/-- **A trajectory of a Command is complete and exact**, after the run of `calls` from `s`. -/
structure Exact (P : Primitives) (known : MemoryLedger → String → String → Cut → Bool)
    (s : MemoryLedger) (calls : List Submission) (commandHash : Hash) (T : Trajectory) :
    Prop where
  /-- What is owned is the stored Acts of the Command. -/
  owned : ∀ n, n ∈ T.owned ↔ ∃ k a, (exec P known s calls).acts.get? k = some a ∧
    a.commandHash = commandHash ∧ n = node a
  ownedOnce : (T.owned.map Node.act).Nodup
  /-- The Acts the ledger started with come first. -/
  ownedFirst : (actsOf s commandHash).map node <+: T.owned
  /-- The others stand in the order in which they were committed. -/
  ownedOrder : ∀ pre c a pre' c' a', Admitted P known s calls pre c a →
    Admitted P known s calls pre' c' a' → Made pre' pre c → a.commandHash = commandHash →
    a'.commandHash = commandHash → [node a, node a'].Sublist T.owned
  /-- What takes part is the stored Acts that a chain of an owned Act links and that belong to
  another Command. -/
  participating : ∀ n, n ∈ T.participating ↔ ∃ b, (exec P known s calls).acts.get? b.hash = some b ∧
    (∃ k a, (exec P known s calls).acts.get? k = some a ∧ a.commandHash = commandHash ∧
      b.hash ∈ a.authChain) ∧ b.commandHash ≠ commandHash ∧ n = participant b
  participatingOnce : (T.participating.map fun n => n.act).Nodup
  /-- Whatever a chain of an owned Act links appears. -/
  linked : ∀ k a b link, (exec P known s calls).acts.get? k = some a →
    a.commandHash = commandHash → link ∈ a.authChain →
    (exec P known s calls).acts.get? link = some b → Appears T b
  /-- So does the proof a resolution of the Command was admitted on. -/
  reliedOn : ∀ pre c r, Admitted P known s calls pre c r → IsResolution commandHash r →
    (∃ q, Linked (exec P known s pre).toMemoryStore c.authChain q ∧ IsRequest commandHash q ∧
      Appears T q) ∧
    (∃ w, Linked (exec P known s pre).toMemoryStore c.authChain w ∧
      w.actType = "AuthorizationReviewed" ∧ Appears T w) ∧
    ∀ b, Linked (exec P known s pre).toMemoryStore c.authChain b → Appears T b
  /-- The status is the one `LifecycleService.status` reports. -/
  status : reported known (exec P known s calls) commandHash = .ok T.status

theorem Keyed.nodup_actsOf (hs : Keyed s) (commandHash : Hash) :
    ((actsOf s commandHash).map Act.hash).Nodup := by
  rw [hs.map_hash_actsOf]
  exact s.acts.nodup.sublist (List.filter_sublist.map Prod.fst)

/-- What takes part in the trajectory of a Command belongs to another one. -/
theorem Keyed.get?_participants_iff (hs : Keyed s) {k : Hash} :
    (participants s (actsOf s commandHash)).get? k = some b ↔
      s.acts.get? k = some b ∧ (∃ a ∈ actsOf s commandHash, k ∈ a.authChain) ∧
        b.commandHash ≠ commandHash := by
  rw [get?_participants hs]
  refine and_congr_right fun hget => and_congr_right fun _ => ⟨fun hother hown => ?_, ?_⟩
  · exact hother b (mem_actsOf_iff.mpr ⟨k, hget, hown⟩) (hs k b hget)
  · rintro hother a ha rfl
    obtain ⟨k, hk, hown⟩ := mem_actsOf_iff.mp ha
    obtain rfl := hs k a hk
    rw [hk] at hget
    cases hget
    exact hother hown

/-- What takes part stands under its own hash. -/
theorem Keyed.mem_participants_iff (hs : Keyed s) :
    b ∈ (participants s (actsOf s commandHash)).values ↔
      s.acts.get? b.hash = some b ∧ (∃ a ∈ actsOf s commandHash, b.hash ∈ a.authChain) ∧
        b.commandHash ≠ commandHash := by
  rw [Dict.mem_values_iff]
  constructor
  · rintro ⟨k, hk⟩
    have hget := hs.get?_participants_iff.mp hk
    obtain rfl := hs k b hget.1
    exact hget
  · intro hget
    exact ⟨b.hash, hs.get?_participants_iff.mpr hget⟩

theorem Keyed.nodup_participants (hs : Keyed s) :
    ((participants s (actsOf s commandHash)).values.map Act.hash).Nodup := by
  have hkeys : (participants s (actsOf s commandHash)).values.map Act.hash
      = (participants s (actsOf s commandHash)).keys := by
    rw [Dict.values, Dict.keys, List.map_map]
    refine List.map_congr_left ?_
    rintro ⟨k, b⟩ hmem
    exact hs k b (hs.get?_participants_iff.mp (Dict.get?_eq_some_iff.mpr hmem)).1
  rw [hkeys]
  exact Dict.nodup _

/-- **A link of an owned Act to a stored one leads to an Act that appears**: it is owned, or it
takes part. -/
theorem Keyed.appears (hs : Keyed s) {k link : Hash} (ha : s.acts.get? k = some a)
    (hown : a.commandHash = commandHash) (hlink : link ∈ a.authChain)
    (hget : s.acts.get? link = some b) :
    Appears (trajectoryOf s commandHash (actsOf s commandHash)) b := by
  obtain rfl := hs link b hget
  by_cases hb : b.commandHash = commandHash
  · exact Or.inl (List.mem_map_of_mem (mem_actsOf_iff.mpr ⟨b.hash, hget, hb⟩))
  · have hmem := mem_actsOf_iff.mpr ⟨k, ha, hown⟩
    exact Or.inr (List.mem_map_of_mem (hs.mem_participants_iff.mpr ⟨hget, ⟨a, hmem, hlink⟩, hb⟩))

/-- The node of an Act that a run admits follows those of the Acts admitted before it. -/
theorem Admitted.sublist_actsOf (h : Admitted P known s calls pre c a)
    (h' : Admitted P known s calls pre' c' a') (hbefore : Made pre' pre c)
    (hown : a.commandHash = commandHash) (hown' : a'.commandHash = commandHash) :
    [a, a'].Sublist (actsOf (exec P known s calls) commandHash) := by
  have hfirst : Admitted P known s pre' pre c a := ⟨hbefore, h.admits⟩
  have hmem : a ∈ actsOf (exec P known s pre') commandHash :=
    mem_actsOf_iff.mpr ⟨a.hash, hfirst.get?, hown⟩
  have hafter : actsOf (exec P known s (pre' ++ [c'])) commandHash
      = actsOf (exec P known s pre') commandHash ++ [a'] := by
    rw [exec, exec_concat, actsOf, h'.admits.entriesOf, if_pos hown', List.map_append]
    rfl
  have hgrows : (actsOf (exec P known s (pre' ++ [c'])) commandHash).Sublist
      (actsOf (exec P known s calls) commandHash) :=
    (((entries_isPrefix_exec h'.made).sublist.filter _).map _)
  refine List.Sublist.trans ?_ hgrows
  rw [hafter]
  exact (List.singleton_sublist.mpr hmem).append (List.Sublist.refl [a'])

/-- **Trajectory reconstruction is complete and exact.** From a ledger that keeps Acts under
their own hashes and whose index of a Command is exact, whatever calls are made of the gate:
the trajectory of the Command lists the Acts the Command owns, each once and in the order
of their commits, and the Acts of other Commands its chains link, each once and with its
Command; and the proof every resolution of it was admitted on appears in the list. -/
theorem trajectory_exact (P : Primitives)
    (known : MemoryLedger → String → String → Cut → Bool) (s : MemoryLedger) (commandHash : Hash)
    (hkeyed : Keyed s) (hs : IndexExact s commandHash) (calls : List Submission) :
    ∃ T, (trajectory commandHash).run (MemoryLedger.handle known) (exec P known s calls)
        = (.ok T, exec P known s calls) ∧ Exact P known s calls commandHash T := by
  have hk : Keyed (exec P known s calls) := hkeyed.exec calls
  have howned : (exec P known s calls).getActsForCommand commandHash
      = .ok (actsOf (exec P known s calls) commandHash) := (hs.exec calls).getActsForCommand
  refine ⟨_, run_trajectory howned, ?_⟩
  constructor
  · intro n
    rw [trajectoryOf, List.mem_map]
    constructor
    · rintro ⟨a, ha, rfl⟩
      obtain ⟨k, hget, hown⟩ := mem_actsOf_iff.mp ha
      exact ⟨k, a, hget, hown, rfl⟩
    · rintro ⟨k, a, hget, hown, rfl⟩
      exact ⟨a, mem_actsOf_iff.mpr ⟨k, hget, hown⟩, rfl⟩
  · rw [trajectoryOf, List.map_map]
    exact hk.nodup_actsOf commandHash
  · exact ((((entries_isPrefix_exec List.nil_prefix).filter _).map _).map _)
  · intro pre c a pre' c' a' h h' hbefore hown hown'
    exact (h.sublist_actsOf h' hbefore hown hown').map node
  · intro n
    rw [trajectoryOf, List.mem_map]
    constructor
    · rintro ⟨b, hb, rfl⟩
      obtain ⟨hget, ⟨a, ha, hlink⟩, hother⟩ := hk.mem_participants_iff.mp hb
      obtain ⟨k, hk, hown⟩ := mem_actsOf_iff.mp ha
      exact ⟨b, hget, ⟨k, a, hk, hown, hlink⟩, hother, rfl⟩
    · rintro ⟨b, hget, ⟨k, a, hka, hown, hlink⟩, hother, rfl⟩
      exact ⟨b, hk.mem_participants_iff.mpr
        ⟨hget, ⟨a, mem_actsOf_iff.mpr ⟨k, hka, hown⟩, hlink⟩, hother⟩, rfl⟩
  · rw [trajectoryOf, List.map_map]
    exact hk.nodup_participants
  · intro k a b link ha hown hlink hget
    exact hk.appears ha hown hlink hget
  · intro pre c r hadm hres
    have hspec := hadm.admits.admission
    -- What its chain linked when it was admitted is still there.
    have happears : ∀ b, Linked (exec P known s pre).toMemoryStore c.authChain b →
        Appears (trajectoryOf (exec P known s calls) commandHash
          (actsOf (exec P known s calls) commandHash)) b := by
      rintro b ⟨link, hlink, hget⟩
      rw [← hspec.authChain] at hlink
      exact hk.appears hadm.get? hres.2 hlink (acts_le_exec hadm.made.earlier _ _ hget)
    obtain ⟨⟨q, hq, htype, hown⟩, ⟨w, hw, hreview⟩, -⟩ :=
      hspec.structural.resolved (hspec.actType.symm.trans hres.1)
    exact ⟨⟨q, hq, ⟨htype, hown.trans hres.2⟩, happears q hq⟩, ⟨w, hw, hreview, happears w hw⟩,
      happears⟩
  · exact reported_eq howned

/-- Once a review is resolved, the trajectory of the Command under review lists the request
among its own Acts and the review as an Act of the reviewer's Command. -/
theorem trajectory_exact_resolved :
    ∃ T, (trajectory Sample.created).run (MemoryLedger.handle MemoryLedger.registered)
        (exec (Sample.primitives "") MemoryLedger.registered Sample.store (Sample.resolved .allow))
      = (.ok T, exec (Sample.primitives "") MemoryLedger.registered Sample.store
          (Sample.resolved .allow)) ∧
      node Sample.request ∈ T.owned ∧ participant Sample.reviewed ∈ T.participating ∧
      (participant Sample.reviewed).ownedByCommand ≠ Sample.created := by
  obtain ⟨T, hrun, hT⟩ := trajectory_exact (Sample.primitives "") MemoryLedger.registered
    Sample.store Sample.created keyed_store indexExact_store (Sample.resolved .allow)
  have hget : ∀ e ∈ [("ff58", Sample.request), ("8c8b", Sample.reviewed),
      ("998c", Sample.resolution)], (exec (Sample.primitives "") MemoryLedger.registered
        Sample.store (Sample.resolved .allow)).acts.get? e.1 = some e.2 := by
    intro e he
    rw [Dict.get?_eq_some_iff, entries_resolved]
    exact List.mem_cons_of_mem _ he
  have hrequest := hget ("ff58", Sample.request) (.head _)
  have hreviewed := hget ("8c8b", Sample.reviewed) (.tail _ (.head _))
  have hresolution := hget ("998c", Sample.resolution) (.tail _ (.tail _ (.head _)))
  refine ⟨T, hrun, (hT.owned _).mpr ⟨"ff58", Sample.request, hrequest, rfl, rfl⟩,
    (hT.participating _).mpr ⟨Sample.reviewed, hreviewed, ?_, by decide, rfl⟩, by decide⟩
  exact ⟨"998c", Sample.resolution, hresolution, rfl, by decide⟩

end Gate

end PowerfarmKernel
