import PowerfarmKernel.Lib.Dag
import PowerfarmKernel.Lib.Runs
import PowerfarmKernel.Kernel.Admission
import PowerfarmKernel.Kernel.Sample

/-!
# Histories the gate writes

A ledger answers one call of the gate after another, and calls may fail. What a call
does is read off `PowerfarmKernel.CommitGate.commit_cases`: it admits an Act
(`PowerfarmKernel.Gate.Admits`), or history is as it was
(`PowerfarmKernel.Gate.step_cases`). So every Act of a run stood there at the start or
was admitted by one of its calls (`PowerfarmKernel.Gate.get?_exec_cases`), and the Acts
and objects of a ledger only grow.

The main result is `PowerfarmKernel.Gate.linear_history`: from Acts that are closed
under ancestry and acyclic, history stays so; every admitted Act has decided on exactly
the Acts before it, so the admitted Acts stand in one line; and nothing stored is ever
lost or changed.
-/

namespace PowerfarmKernel

namespace Gate

open Runs

variable (P : Primitives) (known : MemoryLedger → String → String → Cut → Bool)

/-! ### One call -/

/-- The ledger after one call. -/
def step (s : MemoryLedger) (c : Submission) : MemoryLedger :=
  ((CommitGate.commit P c).run (MemoryLedger.handle known) s).2

/-- The ledger after a sequence of calls, whether they succeed or fail. -/
abbrev exec (s : MemoryLedger) (calls : List Submission) : MemoryLedger :=
  Runs.exec (step P known) s calls

/-- **A call admits an Act**: it returns it, and the Act holds its place afterwards
and did not before. -/
structure Admits (s : MemoryLedger) (c : Submission) (a : Act) : Prop where
  returned : ((CommitGate.commit P c).run (MemoryLedger.handle known) s).1 = .ok a
  fresh : s.acts.get? a.hash = none
  stored : (step P known s c).acts.get? a.hash = some a

/-- **In the run of `calls` from `s`, the call `c` made after the calls `pre` admitted
the Act `a`.** -/
structure Admitted (s : MemoryLedger) (calls pre : List Submission) (c : Submission) (a : Act) :
    Prop where
  made : Made calls pre c
  admits : Admits P known (exec P known s pre) c a

variable {P known} {s : MemoryLedger} {c c' : Submission} {a a' b : Act} {k : Hash}
  {calls pre pre' : List Submission}

/-- **What a call does**: history is as it was, or one Act was admitted. -/
theorem step_cases (P : Primitives) (known : MemoryLedger → String → String → Cut → Bool)
    (s : MemoryLedger) (c : Submission) :
    MemoryLedger.SameHistory s (step P known s c) ∨ ∃ a, Admits P known s c a := by
  have hrun : (CommitGate.commit P c).run (MemoryLedger.handle known) s
      = (((CommitGate.commit P c).run (MemoryLedger.handle known) s).1, step P known s c) := rfl
  rcases CommitGate.commit_cases hrun with
    ⟨-, -, hsame⟩ | ⟨_, _, -, -, -, hsame⟩ | ⟨a, hret, hadm, hplaced⟩
  · exact Or.inl hsame
  · left
    rw [hsame]
    exact MemoryLedger.SameHistory.refl s
  · exact Or.inr ⟨a, hret, hadm.fresh, by rw [hplaced.acts, Dict.get?_set_self]⟩

/-- An admitted Act has passed every check of the gate, and has taken its place. -/
theorem Admits.spec (h : Admits P known s c a) :
    Admission P known s c a ∧ Placed P s (step P known s c) c a := by
  have hrun : (CommitGate.commit P c).run (MemoryLedger.handle known) s
      = (((CommitGate.commit P c).run (MemoryLedger.handle known) s).1, step P known s c) := rfl
  rcases CommitGate.commit_cases hrun with
    ⟨e, herr, -⟩ | ⟨a', k, -, -, -, hsame⟩ | ⟨a', hret, hadm, hplaced⟩
  · rw [h.returned] at herr
    cases herr
  · -- Nothing changed, so the Act cannot have taken a place it did not have.
    have hstored := h.stored
    rw [hsame, h.fresh] at hstored
    cases hstored
  · rw [h.returned] at hret
    cases hret
    exact ⟨hadm, hplaced⟩

theorem Admits.admission (h : Admits P known s c a) : Admission P known s c a := h.spec.1

theorem Admits.placed (h : Admits P known s c a) : Placed P s (step P known s c) c a := h.spec.2

/-- **The Acts after an admission**: the Acts before it, and the new one. -/
theorem Admits.get?_iff (h : Admits P known s c a) :
    (step P known s c).acts.get? k = some b ↔ (k = a.hash ∧ b = a) ∨ s.acts.get? k = some b :=
  h.placed.get?_iff h.fresh

/-- A call loses and changes no Act. -/
theorem acts_le_step (s : MemoryLedger) (c : Submission) : s.acts ≤ (step P known s c).acts := by
  rcases step_cases P known s c with hsame | ⟨a, ha⟩
  · rw [hsame.acts]
  · exact fun k b hb => ha.get?_iff.mpr (Or.inr hb)

/-- A call loses and changes no object. -/
theorem objects_le_step (s : MemoryLedger) (c : Submission) :
    s.objects ≤ (step P known s c).objects := by
  rcases step_cases P known s c with hsame | ⟨a, ha⟩
  · exact hsame.objects
  · exact ha.placed.objects

/-- One call admits at most one Act. -/
theorem Admits.unique (h : Admits P known s c a) (h' : Admits P known s c a') : a = a' := by
  have := h.returned.symm.trans h'.returned
  exact Except.ok.inj this

instance (s : MemoryLedger) (c : Submission) (a : Act) : Decidable (Admits P known s c a) :=
  decidable_of_iff (((CommitGate.commit P c).run (MemoryLedger.handle known) s).1 = .ok a ∧
      s.acts.get? a.hash = none ∧ (step P known s c).acts.get? a.hash = some a)
    ⟨fun h => ⟨h.1, h.2.1, h.2.2⟩, fun h => ⟨h.returned, h.fresh, h.stored⟩⟩

/-! ### Runs -/

theorem acts_le_exec (h : pre <+: calls) :
    (exec P known s pre).acts ≤ (exec P known s calls).acts :=
  exec_rel (R := fun s t : MemoryLedger => s.acts ≤ t.acts) (fun _ => le_refl _) le_trans
    acts_le_step h

theorem objects_le_exec (h : pre <+: calls) :
    (exec P known s pre).objects ≤ (exec P known s calls).objects :=
  exec_rel (R := fun s t : MemoryLedger => s.objects ≤ t.objects) (fun _ => le_refl _) le_trans
    objects_le_step h

theorem Admitted.mono (h : Admitted P known s pre pre' c a) (hpre : pre <+: calls) :
    Admitted P known s calls pre' c a :=
  ⟨h.made.mono hpre, h.admits⟩

/-- An admitted Act is in history from then on. -/
theorem Admitted.get? (h : Admitted P known s calls pre c a) :
    (exec P known s calls).acts.get? a.hash = some a := by
  have hafter : (exec P known s (pre ++ [c])).acts.get? a.hash = some a := by
    rw [exec, exec_concat]
    exact h.admits.stored
  exact Dict.get?_of_le (acts_le_exec h.made) hafter

/-- **Where an Act comes from**: it stood there at the start, or a call of the run
admitted it. -/
theorem get?_exec_cases (h : (exec P known s calls).acts.get? k = some b) :
    s.acts.get? k = some b ∨ ∃ pre c, Admitted P known s calls pre c b ∧ k = b.hash := by
  induction calls using List.reverseRecOn with
  | nil => exact Or.inl h
  | append_singleton calls c ih =>
    have hpre : calls <+: calls ++ [c] := List.prefix_append calls [c]
    have hold : (exec P known s calls).acts.get? k = some b →
        s.acts.get? k = some b ∨
          ∃ pre c', Admitted P known s (calls ++ [c]) pre c' b ∧ k = b.hash := by
      intro hk
      rcases ih hk with hinit | ⟨pre, c', hadm, hkb⟩
      · exact Or.inl hinit
      · exact Or.inr ⟨pre, c', hadm.mono hpre, hkb⟩
    rw [exec, exec_concat] at h
    rcases step_cases P known (exec P known s calls) c with hsame | ⟨a, ha⟩
    · rw [hsame.acts] at h
      exact hold h
    · rcases ha.get?_iff.mp h with ⟨rfl, rfl⟩ | h
      · exact Or.inr ⟨calls, c, ⟨List.prefix_rfl, ha⟩, rfl⟩
      · exact hold h

/-- **An Act is admitted once.** -/
theorem Admitted.unique (h : Admitted P known s calls pre c a)
    (h' : Admitted P known s calls pre' c' a) : pre = pre' ∧ c = c' := by
  have later : ∀ {pre pre' : List Submission} {c c' : Submission},
      Admitted P known s calls pre c a → Admitted P known s calls pre' c' a →
      ¬Made pre' pre c := by
    intro pre pre' c c' h h' hbefore
    have hfirst : Admitted P known s pre' pre c a := ⟨hbefore, h.admits⟩
    have hget := hfirst.get?
    rw [h'.admits.fresh] at hget
    cases hget
  rcases h.made.total h'.made with heq | hbefore | hafter
  · exact heq
  · exact absurd hbefore (later h h')
  · exact absurd hafter (later h' h)

/-! ### Runs that admit at every call -/

/-- What a call adds to history: nothing, or the Act it admits, at the end. -/
theorem entries_step (P : Primitives) (known : MemoryLedger → String → String → Cut → Bool)
    (s : MemoryLedger) (c : Submission) :
    (step P known s c).acts.entries = s.acts.entries ∨
      ∃ a, Admits P known s c a ∧
        (step P known s c).acts.entries = s.acts.entries ++ [(a.hash, a)] := by
  rcases step_cases P known s c with hsame | ⟨a, ha⟩
  · exact Or.inl (congrArg Dict.entries hsame.acts)
  · refine Or.inr ⟨a, ha, ?_⟩
    rw [ha.placed.acts, Dict.entries_set_of_notMem (Dict.get?_eq_none_iff.mp ha.fresh)]

/-- History only grows at its end. -/
theorem entries_isPrefix_exec (h : pre <+: calls) :
    (exec P known s pre).acts.entries <+: (exec P known s calls).acts.entries := by
  refine exec_rel (R := fun s t : MemoryLedger => s.acts.entries <+: t.acts.entries)
    (fun _ => List.prefix_rfl) List.IsPrefix.trans (fun s c => ?_) h
  rcases entries_step P known s c with hsame | ⟨a, -, hadds⟩
  · rw [hsame]
  · rw [hadds]
    exact List.prefix_append _ _

/-- A run adds an Act for each of its calls at most. -/
theorem length_entries_exec_le (s : MemoryLedger) (calls : List Submission) :
    (exec P known s calls).acts.entries.length ≤ s.acts.entries.length + calls.length := by
  induction calls using List.reverseRecOn with
  | nil => exact le_refl _
  | append_singleton calls c ih =>
    rw [exec, exec_concat, List.length_append, List.length_singleton]
    rcases entries_step P known (exec P known s calls) c with hsame | ⟨a, -, hadds⟩
    · rw [hsame]
      omega
    · rw [hadds, List.length_append, List.length_singleton]
      omega

/-- **A run that adds an Act for each of its calls** has added one with each. -/
theorem length_entries_exec_of_full
    (hfull : (exec P known s calls).acts.entries.length = s.acts.entries.length + calls.length)
    (hpre : pre <+: calls) :
    (exec P known s pre).acts.entries.length = s.acts.entries.length + pre.length := by
  obtain ⟨rest, rfl⟩ := hpre
  have hbefore : (exec P known s pre).acts.entries.length ≤ s.acts.entries.length + pre.length :=
    length_entries_exec_le s pre
  have hafter : (exec P known (exec P known s pre) rest).acts.entries.length
      ≤ (exec P known s pre).acts.entries.length + rest.length :=
    length_entries_exec_le (exec P known s pre) rest
  have happend : exec P known s (pre ++ rest) = exec P known (exec P known s pre) rest :=
    List.foldl_append ..
  rw [happend, List.length_append] at hfull
  omega

/-- The history of an earlier state of such a run is read off the last one. -/
theorem entries_exec_of_full
    (hfull : (exec P known s calls).acts.entries.length = s.acts.entries.length + calls.length)
    (hpre : pre <+: calls) : (exec P known s pre).acts.entries
      = (exec P known s calls).acts.entries.take (s.acts.entries.length + pre.length) := by
  rw [← length_entries_exec_of_full hfull hpre]
  exact List.prefix_iff_eq_take.mp (entries_isPrefix_exec hpre)

/-- **So are its admissions.** -/
theorem Admitted.of_full
    (hfull : (exec P known s calls).acts.entries.length = s.acts.entries.length + calls.length)
    (hmade : Made calls pre c) (ha : (exec P known s calls).acts.entries[
      s.acts.entries.length + pre.length]? = some (a.hash, a)) :
    Admitted P known s calls pre c a := by
  refine ⟨hmade, ?_⟩
  have hlength := length_entries_exec_of_full hfull hmade.earlier
  have hlength' := length_entries_exec_of_full hfull hmade
  obtain ⟨later, hlater⟩ : (exec P known s (pre ++ [c])).acts.entries <+:
      (exec P known s calls).acts.entries := entries_isPrefix_exec hmade
  rw [exec, exec_concat] at hlength' hlater
  rcases entries_step P known (exec P known s pre) c with hsame | ⟨b, hb, hadds⟩
  · rw [hsame, hlength, List.length_append, List.length_singleton] at hlength'
    omega
  · rw [← hlater, hadds, ← hlength, List.append_assoc, List.getElem?_append_right le_rfl,
      Nat.sub_self] at ha
    have hab : b = a := congrArg Prod.snd (Option.some.inj ha)
    exact hab ▸ hb

/-! ### The index -/

/-- The hashes indexed under a Command. -/
def indexed (s : MemoryLedger) (commandHash : Hash) : List Hash :=
  (s.commandIndex.get? commandHash).getD []

theorem indexed_of_sameHistory {t : MemoryLedger} (h : MemoryLedger.SameHistory s t)
    (commandHash : Hash) : indexed t commandHash = indexed s commandHash := by
  rw [indexed, indexed, h.commandIndex]

/-- **The index after an admission**: the new Act stands under its Command, and nothing
else was added. -/
theorem mem_indexed_iff {t : MemoryLedger} {commandHash h : Hash} (hplaced : Placed P s t c a) :
    h ∈ indexed t commandHash ↔
      h ∈ indexed s commandHash ∨ (h = a.hash ∧ commandHash = a.commandHash) := by
  rw [indexed, hplaced.commandIndex, Dict.get?_set]
  by_cases hc : commandHash = a.commandHash
  · subst hc
    rw [if_pos rfl, Option.getD_some, List.mem_append, List.mem_singleton]
    simp [indexed]
  · rw [if_neg hc]
    simp [indexed, hc]

/-- A call takes nothing out of the index. -/
theorem mem_indexed_step {commandHash h : Hash} (c : Submission) (hh : h ∈ indexed s commandHash) :
    h ∈ indexed (step P known s c) commandHash := by
  rcases step_cases P known s c with hsame | ⟨a, ha⟩
  · rw [indexed_of_sameHistory hsame]
    exact hh
  · exact (mem_indexed_iff ha.placed).mpr (Or.inl hh)

/-- **An admitted Act is indexed under its Command from then on.** -/
theorem Admitted.mem_indexed (h : Admitted P known s calls pre c a) :
    a.hash ∈ indexed (exec P known s calls) a.commandHash := by
  have hafter : a.hash ∈ indexed (exec P known s (pre ++ [c])) a.commandHash := by
    rw [exec, exec_concat]
    exact (mem_indexed_iff h.admits.placed).mpr (Or.inr ⟨rfl, rfl⟩)
  exact exec_rel (R := fun s t : MemoryLedger =>
      a.hash ∈ indexed s a.commandHash → a.hash ∈ indexed t a.commandHash)
    (fun _ => id) (fun h h' => h' ∘ h) (fun _ c => mem_indexed_step c) h.made hafter

/-- **How an Act came into the index of a Command**: it was indexed there earlier, or a
later call admitted it. -/
theorem mem_indexed_cases {commandHash h : Hash} (hpre : pre <+: calls)
    (hh : h ∈ indexed (exec P known s calls) commandHash) :
    h ∈ indexed (exec P known s pre) commandHash ∨
      ∃ pre' c a, pre <+: pre' ∧ Admitted P known s calls pre' c a ∧ a.hash = h ∧
        a.commandHash = commandHash := by
  induction calls using List.reverseRecOn with
  | nil =>
    rw [List.prefix_nil.mp hpre]
    exact Or.inl hh
  | append_singleton calls c ih =>
    rcases List.prefix_concat_iff.mp hpre with rfl | hpre
    · exact Or.inl hh
    have hold : h ∈ indexed (exec P known s calls) commandHash →
        h ∈ indexed (exec P known s pre) commandHash ∨
          ∃ pre' c' a, pre <+: pre' ∧ Admitted P known s (calls ++ [c]) pre' c' a ∧ a.hash = h ∧
            a.commandHash = commandHash := by
      intro hmem
      rcases ih hpre hmem with hearlier | ⟨pre', c', a, hle, hadm, hrest⟩
      · exact Or.inl hearlier
      · exact Or.inr ⟨pre', c', a, hle, hadm.mono (List.prefix_append _ _), hrest⟩
    rw [exec, exec_concat] at hh
    -- The last call indexes the Act it admits, if it admits one.
    rcases step_cases P known (exec P known s calls) c with hsame | ⟨a, ha⟩
    · rw [indexed_of_sameHistory hsame] at hh
      exact hold hh
    · rcases (mem_indexed_iff ha.placed).mp hh with hh | ⟨rfl, rfl⟩
      · exact hold hh
      · exact Or.inr ⟨calls, c, a, hpre, ⟨List.prefix_rfl, ha⟩, rfl, rfl⟩

/-- **The Acts a Command owns**: those indexed under it. -/
def Owned (s : MemoryLedger) (commandHash : Hash) (a : Act) : Prop :=
  ∃ k ∈ indexed s commandHash, s.acts.get? k = some a

/-- What a Command owns, it owns from then on. -/
theorem Owned.exec {commandHash : Hash} (h : Owned (exec P known s pre) commandHash a)
    (hpre : pre <+: calls) : Owned (exec P known s calls) commandHash a := by
  obtain ⟨k, hk, hget⟩ := h
  refine ⟨k, ?_, acts_le_exec hpre _ _ hget⟩
  exact exec_rel (R := fun s t : MemoryLedger =>
      k ∈ indexed s commandHash → k ∈ indexed t commandHash)
    (fun _ => id) (fun h h' => h' ∘ h) (fun _ c => mem_indexed_step c) hpre hk

theorem Admitted.owned (h : Admitted P known s calls pre c a) :
    Owned (exec P known s calls) a.commandHash a :=
  ⟨a.hash, h.mem_indexed, h.get?⟩

/-- Every indexed hash has an Act. -/
def IndexBacked (s : MemoryLedger) : Prop :=
  ∀ commandHash, ∀ k ∈ indexed s commandHash, ∃ a, s.acts.get? k = some a

/-- **The index of a run stays backed by its Acts.** -/
theorem IndexBacked.exec (h : IndexBacked s) (calls : List Submission) :
    IndexBacked (exec P known s calls) := by
  intro commandHash k hk
  rcases mem_indexed_cases List.nil_prefix hk with hinit | ⟨pre, c, a, -, hadm, rfl, -⟩
  · obtain ⟨a, ha⟩ := h commandHash k hinit
    have hle : s.acts ≤ (Gate.exec P known s calls).acts := acts_le_exec List.nil_prefix
    exact ⟨a, hle _ _ ha⟩
  · exact ⟨a, hadm.get?⟩

/-- A Command of a run is told the Acts it owns. -/
theorem IndexBacked.owned (h : IndexBacked s) (commandHash : Hash) :
    ∃ owned, s.getActsForCommand commandHash = .ok owned ∧
      ∀ b, b ∈ owned ↔ Owned s commandHash b := by
  obtain ⟨owned, howned⟩ := MemoryStore.getActsForCommand_ok (h commandHash)
  exact ⟨owned, howned, fun b => MemoryStore.mem_getActsForCommand howned⟩

/-- The Acts a Command is found to own are those indexed under it. -/
theorem mem_owned {commandHash : Hash} {owned : List Act}
    (h : s.getActsForCommand commandHash = .ok owned) :
    b ∈ owned ↔ ∃ k ∈ indexed s commandHash, s.acts.get? k = some b :=
  MemoryStore.mem_getActsForCommand h

/-! ### The order of history -/

/-- One hash names a parent of the Act stored under another. -/
def ParentOf (s : MemoryLedger) (p k : Hash) : Prop :=
  ∃ act, s.acts.get? k = some act ∧ p ∈ act.parents

/-- The hashes that have an Act. -/
def stored (s : MemoryLedger) : Set Hash := {k | k ∈ s.acts.keys}

/-- **Every parent is a stored Act, and no Act is its own ancestor.** -/
structure Rooted (s : MemoryLedger) : Prop where
  closed : Dag.Closed (ParentOf s) (stored s)
  acyclic : Dag.Acyclic (ParentOf s)

/-- Of the new parent relation, only the parents of the new Act are new. -/
theorem Admits.parentOf_old (h : Admits P known s c a) {p k : Hash}
    (hp : ParentOf (step P known s c) p k) (hk : k ≠ a.hash) : ParentOf s p k := by
  obtain ⟨act, hact, hp⟩ := hp
  rcases h.get?_iff.mp hact with ⟨rfl, -⟩ | hold
  · exact absurd rfl hk
  · exact ⟨act, hold, hp⟩

/-- The parents of the new Act are stored. -/
theorem Admits.parentOf_new (h : Admits P known s c a) {p : Hash}
    (hp : ParentOf (step P known s c) p a.hash) : p ∈ Gate.stored s := by
  obtain ⟨act, hact, hp⟩ := hp
  rw [h.stored] at hact
  cases hact
  rw [h.admission.act_parents] at hp
  exact Dict.isSome_get?_iff.mp (h.admission.parents p hp)

/-- **One call keeps history rooted.** -/
theorem Rooted.step (h : Rooted s) (c : Submission) : Rooted (step P known s c) := by
  rcases step_cases P known s c with hsame | ⟨a, ha⟩
  · have hparent : ParentOf (Gate.step P known s c) = ParentOf s := by
      funext p k
      rw [ParentOf, hsame.acts]
      rfl
    have hstored : stored (Gate.step P known s c) = stored s := by
      rw [stored, hsame.acts]
      rfl
    exact ⟨by rw [hparent, hstored]; exact h.closed, by rw [hparent]; exact h.acyclic⟩
  · have hfresh : a.hash ∉ stored s := Dict.get?_eq_none_iff.mp ha.fresh
    have hstored : stored (Gate.step P known s c) = insert a.hash (stored s) := by
      ext k
      change k ∈ (Gate.step P known s c).acts.keys ↔ k = a.hash ∨ k ∈ s.acts.keys
      rw [ha.placed.acts, Dict.mem_keys_set]
    constructor
    · rw [hstored]
      exact h.closed.insert (fun p k => ha.parentOf_old) fun p => ha.parentOf_new
    · refine h.acyclic.of_sink (fun p k => ha.parentOf_old) fun k hk => ?_
      -- A parent of anything is stored already, and the new hash is not.
      by_cases hka : k = a.hash
      · subst hka
        exact hfresh (ha.parentOf_new hk)
      · have hold := ha.parentOf_old hk hka
        obtain ⟨act, hact, hp⟩ := hold
        exact hfresh (h.closed _ _ ⟨act, hact, hp⟩ (Dict.mem_keys_of_get? hact))

/-- **Every run keeps history rooted.** -/
theorem Rooted.exec (h : Rooted s) (calls : List Submission) : Rooted (exec P known s calls) :=
  exec_inv (fun _ c hs => hs.step c) h calls

/-- In a rooted history, everything that happened is a closed cut. -/
theorem Rooted.isClosedCut (h : Rooted s) : s.isClosedCut s.historyCut = true := by
  rw [MemoryLedger.isClosedCut_iff]
  intro k hk
  obtain ⟨act, hact⟩ := MemoryStore.mem_historyCut.mp hk
  refine ⟨act, hact, fun p hp => ?_⟩
  have := h.closed p k ⟨act, hact, hp⟩ (Dict.mem_keys_of_get? hact)
  exact Dict.mem_keySet.mpr this

/-- An admitted Act has decided on exactly the Acts stored before it. -/
theorem Admitted.mem_decisionCut (h : Admitted P known s calls pre c a) :
    k ∈ a.decisionCut ↔ k ∈ (exec P known s pre).acts.keys := by
  rw [h.admits.admission.decisionCut]
  exact Dict.mem_keySet

/-- An Act admitted earlier lies in the cut of one admitted later, and not the other
way round. -/
theorem Admitted.before (h : Admitted P known s calls pre c a)
    (h' : Admitted P known s calls pre' c' a') (hbefore : Made pre' pre c) :
    a.hash ∈ a'.decisionCut ∧ a'.hash ∉ a.decisionCut := by
  have hfirst : Admitted P known s pre' pre c a := ⟨hbefore, h.admits⟩
  refine ⟨h'.mem_decisionCut.mpr (Dict.mem_keys_of_get? hfirst.get?), fun hmem => ?_⟩
  have hkeys := h.mem_decisionCut.mp hmem
  have hlater := Dict.mem_keys_of_le (acts_le_exec hbefore.earlier) hkeys
  exact Dict.get?_eq_none_iff.mp h'.admits.fresh hlater

/-- **The admitted Acts stand in one line**: of two of them, one has decided on the other. -/
theorem Admitted.ordered (h : Admitted P known s calls pre c a)
    (h' : Admitted P known s calls pre' c' a') (hne : a ≠ a') :
    Xor (a.hash ∈ a'.decisionCut) (a'.hash ∈ a.decisionCut) := by
  rcases h.made.total h'.made with ⟨rfl, rfl⟩ | hbefore | hafter
  · exact absurd (h.admits.unique h'.admits) hne
  · exact Or.inl (h.before h' hbefore)
  · exact Or.inr (h'.before h hafter)

/-- What an Act has decided on, a later one has decided on too. -/
theorem Admitted.decisionCut_subset (h : Admitted P known s calls pre c a)
    (h' : Admitted P known s calls pre' c' a') (hcut : a.hash ∈ a'.decisionCut) :
    a.decisionCut ⊆ a'.decisionCut := by
  have hbefore : Made pre' pre c := by
    rcases h.made.total h'.made with ⟨rfl, rfl⟩ | hbefore | hafter
    · rw [h.admits.unique h'.admits] at hcut
      exact absurd (h'.mem_decisionCut.mp hcut) (Dict.get?_eq_none_iff.mp h'.admits.fresh)
    · exact hbefore
    · exact absurd hcut (h'.before h hafter).2
  intro k hk
  exact h'.mem_decisionCut.mpr
    (Dict.mem_keys_of_le (acts_le_exec hbefore.earlier) (h.mem_decisionCut.mp hk))

/-- **A linear, closed, append-only history.** Whatever calls are made of the gate,
from Acts closed under ancestry and acyclic: history stays closed and acyclic, and
everything that happened is a closed cut; an admitted Act has decided on exactly the
Acts stored before it, so of two admitted Acts exactly one lies in the other's cut; and
no call removes or changes a stored Act or object. -/
theorem linear_history (P : Primitives) (known : MemoryLedger → String → String → Cut → Bool)
    (s : MemoryLedger) (hclosed : Dag.Closed (ParentOf s) (stored s))
    (hacyclic : Dag.Acyclic (ParentOf s)) (calls : List Submission) :
    (Dag.Closed (ParentOf (exec P known s calls)) (stored (exec P known s calls)) ∧
        Dag.Acyclic (ParentOf (exec P known s calls)) ∧
        (exec P known s calls).isClosedCut (exec P known s calls).historyCut = true) ∧
      (∀ pre c a, Admitted P known s calls pre c a →
        ∀ k, k ∈ a.decisionCut ↔ k ∈ stored (exec P known s pre)) ∧
      (∀ pre c a pre' c' a', Admitted P known s calls pre c a →
        Admitted P known s calls pre' c' a' → a ≠ a' →
        Xor (a.hash ∈ a'.decisionCut) (a'.hash ∈ a.decisionCut)) ∧
      ∀ pre c, Made calls pre c →
        (exec P known s pre).acts ≤ (step P known (exec P known s pre) c).acts ∧
        (exec P known s pre).objects ≤ (step P known (exec P known s pre) c).objects := by
  have hrooted : Rooted (exec P known s calls) := Rooted.exec ⟨hclosed, hacyclic⟩ calls
  refine ⟨⟨hrooted.closed, hrooted.acyclic, hrooted.isClosedCut⟩, ?_, ?_, ?_⟩
  · intro pre c a h k
    exact h.mem_decisionCut
  · intro pre c a pre' c' a' h h' hne
    exact h.ordered h' hne
  · intro pre c _
    exact ⟨acts_le_step _ _, objects_le_step _ _⟩

/-- In a ledger after its genesis, no Act has a parent. -/
theorem not_parentOf_ledger {pad : String} {payloads : List (Hash × List (String × CanonValue))}
    {identities : List Identity} {names : List (String × String)} {p k : Hash} :
    ¬ParentOf (Sample.ledger pad payloads identities names) p k := by
  rintro ⟨act, hact, hp⟩
  have hget : (Sample.ledger pad payloads identities names).acts.get? k
      = if k = Sample.genesisHash pad then some (Sample.genesis pad) else none := Dict.get?_set
  rw [hget] at hact
  split at hact
  · cases hact
    exact absurd hp List.not_mem_nil
  · cases hact

/-- The Acts of a Command that goes through review, and of its change. -/
theorem entries_reviewed :
    (exec (Sample.primitives "") MemoryLedger.registered Sample.store
        (Sample.resolved .allow ++ [Sample.consequence])).acts.entries
      = [("0000", Sample.genesis ""), ("ff58", Sample.request), ("8c8b", Sample.reviewed),
          ("998c", Sample.resolution), ("f1eb", Sample.change)] := by
  decide +kernel

/-- Up to the change. -/
theorem entries_resolved :
    (exec (Sample.primitives "") MemoryLedger.registered Sample.store
        (Sample.resolved .allow)).acts.entries
      = [("0000", Sample.genesis ""), ("ff58", Sample.request), ("8c8b", Sample.reviewed),
          ("998c", Sample.resolution)] := by
  rw [entries_exec_of_full (congrArg List.length entries_reviewed) (List.prefix_append _ _),
    entries_reviewed]
  rfl

/-- The history of a Command that went through review is a closed cut, and stands in
the order of its admissions. -/
theorem linear_history_resolved :
    (exec (Sample.primitives "") MemoryLedger.registered Sample.store
        (Sample.resolved .allow)).isClosedCut
      (exec (Sample.primitives "") MemoryLedger.registered Sample.store
        (Sample.resolved .allow)).historyCut = true ∧
    (exec (Sample.primitives "") MemoryLedger.registered Sample.store
        (Sample.resolved .allow)).acts.keys = ["0000", "ff58", "8c8b", "998c"] := by
  refine ⟨(linear_history (Sample.primitives "") MemoryLedger.registered Sample.store ?_ ?_
    (Sample.resolved .allow)).1.2.2, ?_⟩
  · exact fun p k hpk _ => absurd hpk not_parentOf_ledger
  · intro k hk
    obtain ⟨p, hp, -⟩ := Relation.TransGen.head'_iff.mp hk
    exact not_parentOf_ledger hp
  · rw [Dict.keys, entries_resolved]
    rfl

end Gate

end PowerfarmKernel
