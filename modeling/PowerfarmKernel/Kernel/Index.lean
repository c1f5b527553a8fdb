import PowerfarmKernel.Kernel.History

/-!
# The index of a Command

The store keeps the hashes of a Command's Acts in a list of their own, and everything the
gate and the projections know about a Command they read there. The list is right
(`PowerfarmKernel.Gate.IndexExact`) when it has the places of the Command's stored Acts,
each once and in the order in which they were stored. A call that admits an Act extends
both by it, so the index of a Command that was right at the start stays right
(`PowerfarmKernel.Gate.IndexExact.exec`), and then `get_acts_for_command` returns exactly
the stored Acts of the Command.
-/

namespace PowerfarmKernel

namespace Gate

open Runs

variable {P : Primitives} {known : MemoryLedger → String → String → Cut → Bool}
  {s : MemoryLedger} {calls pre : List Submission} {c : Submission} {a : Act} {k commandHash : Hash}

/-- The entries of history that are Acts of a Command, oldest first. -/
def entriesOf (s : MemoryLedger) (commandHash : Hash) : List (Hash × Act) :=
  s.acts.entries.filter fun e => e.2.commandHash = commandHash

/-- The stored Acts of a Command, oldest first. -/
def actsOf (s : MemoryLedger) (commandHash : Hash) : List Act :=
  (entriesOf s commandHash).map Prod.snd

/-- **The index of a Command is exact**: it lists the places of the Command's Acts, each once
and in the order of history. -/
def IndexExact (s : MemoryLedger) (commandHash : Hash) : Prop :=
  indexed s commandHash = (entriesOf s commandHash).map Prod.fst

instance : Decidable (IndexExact s commandHash) :=
  inferInstanceAs (Decidable (_ = _))

theorem mem_entriesOf_iff :
    (k, a) ∈ entriesOf s commandHash ↔ s.acts.get? k = some a ∧ a.commandHash = commandHash := by
  rw [entriesOf, List.mem_filter, decide_eq_true_eq, Dict.get?_eq_some_iff]

theorem mem_actsOf_iff :
    a ∈ actsOf s commandHash ↔ ∃ k, s.acts.get? k = some a ∧ a.commandHash = commandHash := by
  rw [actsOf, List.mem_map]
  constructor
  · rintro ⟨⟨k, a⟩, hmem, rfl⟩
    exact ⟨k, mem_entriesOf_iff.mp hmem⟩
  · rintro ⟨k, h⟩
    exact ⟨(k, a), mem_entriesOf_iff.mpr h, rfl⟩

/-! ### What a call does to it -/

/-- The Acts of a Command after an admission: those before it, and the new one if it is the
Command's. -/
theorem Admits.entriesOf (h : Admits P known s c a) (commandHash : Hash) :
    entriesOf (step P known s c) commandHash
      = Gate.entriesOf s commandHash
        ++ if a.commandHash = commandHash then [(a.hash, a)] else [] := by
  have hentries : (step P known s c).acts.entries = s.acts.entries ++ [(a.hash, a)] := by
    rw [h.placed.acts, Dict.entries_set_of_notMem (Dict.get?_eq_none_iff.mp h.fresh)]
  rw [Gate.entriesOf, hentries, List.filter_append]
  by_cases hc : a.commandHash = commandHash
  · simp [Gate.entriesOf, hc]
  · simp [Gate.entriesOf, hc]

/-- The index of a Command after an admission, likewise. -/
theorem Admits.indexed (h : Admits P known s c a) (commandHash : Hash) :
    indexed (step P known s c) commandHash
      = Gate.indexed s commandHash ++ if a.commandHash = commandHash then [a.hash] else [] := by
  rw [Gate.indexed, h.placed.commandIndex, Dict.get?_set]
  by_cases hc : commandHash = a.commandHash
  · subst hc
    simp [Gate.indexed]
  · rw [if_neg hc, if_neg (Ne.symm hc), List.append_nil]
    rfl

/-- **One call keeps the index of a Command exact.** -/
theorem IndexExact.step (h : IndexExact s commandHash) (c : Submission) :
    IndexExact (step P known s c) commandHash := by
  rcases step_cases P known s c with hsame | ⟨a, ha⟩
  · rw [IndexExact, indexed_of_sameHistory hsame, entriesOf, hsame.acts]
    exact h
  · rw [IndexExact, ha.indexed, ha.entriesOf, List.map_append, ← h]
    split
    · rfl
    · rfl

/-- **Every run keeps the index of a Command exact.** -/
theorem IndexExact.exec (h : IndexExact s commandHash) (calls : List Submission) :
    IndexExact (exec P known s calls) commandHash := by
  induction calls using List.reverseRecOn with
  | nil => exact h
  | append_singleton calls c ih =>
    rw [Gate.exec, exec_concat]
    exact ih.step c

/-! ### What it answers -/

/-- **A Command is told its stored Acts**, each once and oldest first. -/
theorem IndexExact.getActsForCommand (h : IndexExact s commandHash) :
    s.getActsForCommand commandHash = .ok (actsOf s commandHash) := by
  have hindex : (s.commandIndex.get? commandHash).getD []
      = (entriesOf s commandHash).map Prod.fst := h
  rw [MemoryStore.getActsForCommand_ok_iff, hindex, actsOf, List.forall₂_map_left_iff,
    List.forall₂_map_right_iff, List.forall₂_same]
  rintro ⟨k, a⟩ hmem
  exact (mem_entriesOf_iff.mp hmem).1

/-- A Command without Acts is not indexed after genesis. -/
theorem indexExact_store : IndexExact Sample.store Sample.created := by decide

end Gate

end PowerfarmKernel
