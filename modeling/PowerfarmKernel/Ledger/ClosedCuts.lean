import PowerfarmKernel.Kernel.History
import PowerfarmKernel.Ledger.Conformance

/-!
# Closed cuts

The two adapters decide by different means whether a set of hashes is a closed cut.
`MemoryLedger.is_closed_cut` looks at the members one by one. The query of
`PostgresStore.is_closed_cut` counts the Acts whose hash is a member and searches for a
parent that escapes; that as many Acts are counted as there are members means that each
member has its Act, because no two Acts have one hash.

`PowerfarmKernel.closed_cuts` says that they decide the same: whether all members have
their Acts and all ancestors of members are members. What it adds on unions,
intersections and later histories is read off there.
-/

namespace PowerfarmKernel

open Prog LedgerM

variable {P : Primitives} {known : MemoryLedger → String → String → Cut → Bool}
  {s t : MemoryLedger} {db : Postgres} {cut cut' : Cut}

/-! ### In memory -/

namespace MemoryLedger

/-- **A closed cut, as a set**: its members have Acts, and it is closed under ancestry. -/
theorem isClosedCut_iff_closed : s.isClosedCut cut = true ↔
    (∀ x ∈ cut, (s.acts.get? x).isSome) ∧ Dag.Closed (Gate.ParentOf s) (cut : Set Hash) := by
  rw [isClosedCut_iff]
  constructor
  · intro h
    refine ⟨fun x hx => ?_, ?_⟩
    · obtain ⟨act, hact, -⟩ := h x hx
      rw [hact]
      rfl
    · rintro p x ⟨act, hact, hp⟩ hx
      obtain ⟨act', hact', hparents⟩ := h x hx
      rw [hact] at hact'
      cases hact'
      exact hparents p hp
  · rintro ⟨hstored, hclosed⟩ x hx
    obtain ⟨act, hact⟩ := Option.isSome_iff_exists.mp (hstored x hx)
    exact ⟨act, hact, fun p hp => hclosed p x ⟨act, hact, hp⟩ hx⟩

theorem isClosedCut_union (h : s.isClosedCut cut = true) (h' : s.isClosedCut cut' = true) :
    s.isClosedCut (cut ∪ cut') = true := by
  rw [isClosedCut_iff_closed] at h h' ⊢
  refine ⟨fun x hx => ?_, ?_⟩
  · exact (Finset.mem_union.mp hx).elim (h.1 x) (h'.1 x)
  · rw [Finset.coe_union]
    exact h.2.union h'.2

theorem isClosedCut_inter (h : s.isClosedCut cut = true) (h' : s.isClosedCut cut' = true) :
    s.isClosedCut (cut ∩ cut') = true := by
  rw [isClosedCut_iff_closed] at h h' ⊢
  refine ⟨fun x hx => h.1 x (Finset.mem_inter.mp hx).1, ?_⟩
  rw [Finset.coe_inter]
  exact h.2.inter h'.2

/-- **A closed cut stays closed**: the Acts of its members stay as they are. -/
theorem isClosedCut_of_le (hle : s.acts ≤ t.acts) (h : s.isClosedCut cut = true) :
    t.isClosedCut cut = true := by
  rw [isClosedCut_iff] at h ⊢
  intro x hx
  obtain ⟨act, hact, hparents⟩ := h x hx
  exact ⟨act, hle _ _ hact, hparents⟩

end MemoryLedger

/-! ### In the database -/

namespace Postgres

/-- **What is run against the database leaves a closed cut closed.** -/
theorem isClosedCut_run {α : Type} (p : LedgerM α) (hunique : (db.acts.map Act.hash).Nodup) :
    ((p.run (handle P) db).2.acts.map Act.hash).Nodup ∧
      (db.isClosedCut cut = true → (p.run (handle P) db).2.isClosedCut cut = true) := by
  have hstep : ∀ o, True → ∀ s : Postgres, (s.acts.map Act.hash).Nodup →
      ((handle P o s).2.acts.map Act.hash).Nodup ∧ s.acts <+: (handle P o s).2.acts := by
    intro o _ s hs
    refine ⟨?_, (grown_handle P o s).acts⟩
    rcases handle_cases P o s with ⟨act, canon, commandType, -, hinserted⟩ | hkept
    · exact hinserted.actsHash hs
    · rw [hkept.acts]
      exact hs
  have hrun := (Only.of_forall (φ := fun _ : LedgerOp => True) (fun _ => trivial) p).run_rel
    (h := handle P) (R := fun s t : Postgres => (s.acts.map Act.hash).Nodup →
      (t.acts.map Act.hash).Nodup ∧ s.acts <+: t.acts)
    (fun _ hs => ⟨hs, List.prefix_rfl⟩)
    (fun h h' hs => ⟨(h' (h hs).1).1, (h hs).2.trans (h' (h hs).1).2⟩) hstep db hunique
  exact ⟨hrun.1, isClosedCut_of_prefix hrun.2 hrun.1⟩

variable (P) in
/-- The database after a sequence of calls of the gate, whether they succeed or fail. -/
abbrev exec (db : Postgres) (calls : List Submission) : Postgres :=
  Runs.exec (fun db c => ((CommitGate.commit P c).run (handle P) db).2) db calls

theorem isClosedCut_exec (hunique : (db.acts.map Act.hash).Nodup) (calls : List Submission)
    (h : db.isClosedCut cut = true) : (exec P db calls).isClosedCut cut = true := by
  have hinv : ((exec P db calls).acts.map Act.hash).Nodup ∧
      (exec P db calls).isClosedCut cut = true := by
    induction calls using List.reverseRecOn with
    | nil => exact ⟨hunique, h⟩
    | append_singleton calls c ih =>
      rw [exec, Runs.exec_concat]
      obtain ⟨hnodup, hclosed⟩ := isClosedCut_run (CommitGate.commit P c) ih.1
      exact ⟨hnodup, hclosed ih.2⟩
  exact hinv.2

end Postgres

/-! ### The two adapters -/

/-- **The adapters decide alike** over the same Acts. -/
theorem isClosedCut_eq (hacts : ∀ k a, s.acts.get? k = some a ↔ a ∈ db.acts ∧ a.hash = k)
    (hunique : (db.acts.map Act.hash).Nodup) (cut : Cut) :
    s.isClosedCut cut = db.isClosedCut cut := by
  rw [Bool.eq_iff_iff, MemoryLedger.isClosedCut_iff, Postgres.isClosedCut_iff hunique]
  constructor
  · intro h
    refine ⟨fun x hx => ?_, fun a ha hin p hp => ?_⟩
    · obtain ⟨a, ha, -⟩ := h x hx
      exact ⟨a, (hacts x a).mp ha⟩
    · obtain ⟨b, hb, hparents⟩ := h a.hash hin
      rw [(hacts a.hash a).mpr ⟨ha, rfl⟩] at hb
      cases hb
      exact hparents p hp
  · rintro ⟨hstored, hclosed⟩ x hx
    obtain ⟨a, ha, rfl⟩ := hstored x hx
    exact ⟨a, (hacts a.hash a).mpr ⟨ha, rfl⟩, hclosed a ha hx⟩

/-- **Both adapters decide ancestry closure.** Over the same Acts they give the same answer
to every set of hashes, and the answer is yes exactly when each member is a stored Act and
each ancestor of a member is a member. Unions and intersections of closed cuts are closed,
and no commit opens a closed cut. -/
theorem closed_cuts (P : Primitives) (known : MemoryLedger → String → String → Cut → Bool)
    (s : MemoryLedger) (db : Postgres)
    (hacts : ∀ k a, s.acts.get? k = some a ↔ a ∈ db.acts ∧ a.hash = k)
    (hunique : (db.acts.map Act.hash).Nodup) :
    (∀ cut, s.isClosedCut cut = db.isClosedCut cut) ∧
      (∀ cut, s.isClosedCut cut = true ↔ ∀ x ∈ cut, (s.acts.get? x).isSome ∧
        ∀ y, Relation.TransGen (Gate.ParentOf s) y x → y ∈ cut) ∧
      (∀ cut cut', s.isClosedCut cut = true → s.isClosedCut cut' = true →
        s.isClosedCut (cut ∪ cut') = true ∧ s.isClosedCut (cut ∩ cut') = true) ∧
      ∀ cut, s.isClosedCut cut = true → ∀ calls,
        (Gate.exec P known s calls).isClosedCut cut = true ∧
          (Postgres.exec P db calls).isClosedCut cut = true := by
  refine ⟨isClosedCut_eq hacts hunique, fun cut => ?_, fun cut cut' h h' => ?_,
    fun cut h calls => ?_⟩
  · rw [MemoryLedger.isClosedCut_iff_closed, Dag.closed_iff_transGen]
    exact ⟨fun h x hx => ⟨h.1 x hx, h.2 x hx⟩, fun h => ⟨fun x hx => (h x hx).1,
      fun x hx => (h x hx).2⟩⟩
  · exact ⟨MemoryLedger.isClosedCut_union h h', MemoryLedger.isClosedCut_inter h h'⟩
  · refine ⟨MemoryLedger.isClosedCut_of_le (Gate.acts_le_exec List.nil_prefix) h, ?_⟩
    rw [isClosedCut_eq hacts hunique] at h
    exact Postgres.isClosedCut_exec hunique calls h

namespace Sample

/-- A history in which a thing follows genesis, in memory. -/
def grownTwin : MemoryLedger := { twin with acts := twin.acts.set thing.hash thing }

/-- The same history in the database. -/
def grownDatabase : Postgres := { database with acts := database.acts ++ [thing] }

end Sample

/-- A cut with the thing and its parent is closed in both adapters, and stays so when another
thing is made; a cut with the thing alone is open in both. -/
theorem closed_cuts_thing :
    Sample.grownDatabase.isClosedCut {Sample.genesisHash Sample.pad, Sample.thing.hash} = true ∧
      (Postgres.exec Sample.libraries Sample.grownDatabase [Sample.makeThing []]).isClosedCut
        {Sample.genesisHash Sample.pad, Sample.thing.hash} = true ∧
      Sample.grownTwin.isClosedCut {Sample.thing.hash} = false ∧
      Sample.grownDatabase.isClosedCut {Sample.thing.hash} = false := by
  have hacts : ∀ k a, Sample.grownTwin.acts.get? k = some a ↔
      a ∈ Sample.grownDatabase.acts ∧ a.hash = k := by
    intro k a
    rw [show Sample.grownTwin.acts.get? k = _ from Dict.get?_set]
    have hmem : a ∈ Sample.grownDatabase.acts ↔ a ∈ Sample.database.acts ∨ a = Sample.thing :=
      List.mem_append.trans (or_congr_right List.mem_singleton)
    rw [hmem]
    by_cases hk : k = Sample.thing.hash
    · rw [if_pos hk]
      constructor
      · rintro h
        cases h
        exact ⟨Or.inr rfl, hk.symm⟩
      · rintro ⟨hold | rfl, hhash⟩
        · rw [List.mem_singleton.mp hold] at hhash
          exact absurd (hhash.trans hk) (by decide +kernel)
        · rfl
    · rw [if_neg hk, Sample.sameContent_twin.acts]
      refine and_congr_left fun hhash => ⟨Or.inl, fun h => h.resolve_right ?_⟩
      rintro rfl
      exact hk hhash.symm
  have hcuts := closed_cuts Sample.libraries MemoryLedger.registered Sample.grownTwin
    Sample.grownDatabase hacts (by decide +kernel)
  have hclosed : Sample.grownTwin.isClosedCut
      {Sample.genesisHash Sample.pad, Sample.thing.hash} = true := by decide +kernel
  have hopen : Sample.grownTwin.isClosedCut {Sample.thing.hash} = false := by decide +kernel
  exact ⟨(hcuts.1 _).symm.trans hclosed, (hcuts.2.2.2 _ hclosed _).2, hopen,
    (hcuts.1 _).symm.trans hopen⟩

end PowerfarmKernel
