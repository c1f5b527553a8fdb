import PowerfarmKernel.Kernel.Sample
import PowerfarmKernel.Lib.Assignments
import PowerfarmKernel.Lib.Runs

/-!
# Registering names

`MemoryLedger.register` registers a version of a name, born at an Act. What is registered
should stay so: an Act is read under the versions it was validated under, also when there are
newer ones.

The ledger keeps one entry for each kind, name and birth Act, and a later call for the same
three puts its entry in the place of the first. The name stays registered; the version, and
the hash its definition goes by, are gone. `PowerfarmKernel.Registration.permanent_iff` says
that nothing else can be lost.
-/

namespace PowerfarmKernel

open Runs

/-- The place of an entry among those of a ledger: all but its version. -/
def RegistryEntry.key (e : RegistryEntry) : String × String × Hash := (e.kind, e.name, e.bornAt)

/-- **A call of `MemoryLedger.register`**, with the defaults of its keywords. -/
structure Registration where
  kind : String
  name : String
  bornAt : Hash
  version : ℤ := 1
  constitutional : Bool := false
  entryHash : Option Hash := none

/-- `MemoryLedger()`. -/
def MemoryLedger.fresh : MemoryLedger where
  objects := Dict.empty
  acts := Dict.empty
  commandIndex := Dict.empty
  registry := []
  identities := Dict.empty
  principalBindings := Dict.empty
  registryMetadata := Dict.empty

namespace Registration

variable (P : Primitives)

/-- What a version of a name is hashed as. -/
def definition (c : Registration) : CanonValue :=
  .dict [("kind", .str c.kind), ("name", .str c.name), ("version", .int c.version)]

/-- The entry a call registers, if its definition has a hash. -/
def entry (c : Registration) : Except Raised RegistryEntry :=
  (MemoryLedger.definitionHash P c.kind c.name c.entryHash c.definition).map fun hash =>
    ⟨hash, c.kind, c.name, c.version, c.bornAt, c.constitutional, c.definition⟩

/-- The entry and its place. -/
def binding (c : Registration) : Option ((String × String × Hash) × RegistryEntry) :=
  (c.entry P).toOption.map fun e => (e.key, e)

/-- The ledger after a call, whether it returns or raises. -/
def step (s : MemoryLedger) (c : Registration) : MemoryLedger :=
  (s.register P c.kind c.name c.bornAt c.version c.constitutional c.entryHash).2

/-- The ledger after a sequence of calls. -/
abbrev exec (s : MemoryLedger) (calls : List Registration) : MemoryLedger :=
  Runs.exec (step P) s calls

/-- **Registration is permanent** in the run of some calls: what is registered at a cut is so
after any later call, by its name or by its hash, and no entry is lost. -/
structure Permanent (s : MemoryLedger) (calls : List Registration) : Prop where
  registered : ∀ pre post kind name cut, pre <+: post → post <+: calls →
    (exec P s pre).registered kind name cut = true →
    (exec P s post).registered kind name cut = true
  registryEntries : ∀ pre post kind cut, pre <+: post → post <+: calls →
    (exec P s pre).registryEntries kind cut ⊆ (exec P s post).registryEntries kind cut

/-- **No place is used for two entries**: a call for a kind, name and birth Act that has an
entry, from the start or by an earlier call, is for the same version, with the same flag and
the same hash. -/
structure Agreeing (s : MemoryLedger) (calls : List Registration) : Prop where
  initial : ∀ c ∈ calls, ∀ e, c.entry P = .ok e →
    ∀ old, s.registryMetadata.get? e.key = some old → old = e
  pairwise : calls.Pairwise fun c c' => ∀ e e', c.entry P = .ok e → c'.entry P = .ok e' →
    e.key = e'.key → e = e'

/-- Every entry stands in its place. -/
def Filed (s : MemoryLedger) : Prop := ∀ k e, s.registryMetadata.get? k = some e → e.key = k

/-- A name is registered at a cut, in some version. -/
def Named (s : MemoryLedger) (kind name : String) (cut : Cut) : Prop :=
  ∃ e ∈ s.registryMetadata.values, e.kind = kind ∧ e.name = name ∧ e.bornAt ∈ cut

variable {P} {s : MemoryLedger} {calls pre post : List Registration} {c : Registration}
  {e : RegistryEntry} {kind name : String} {cut : Cut}

/-! ### What a call does -/

theorem binding_eq_some {b : (String × String × Hash) × RegistryEntry} :
    c.binding P = some b ↔ c.entry P = .ok b.2 ∧ b.2.key = b.1 := by
  obtain ⟨k, e⟩ := b
  rw [binding]
  rcases c.entry P with err | e'
  · exact iff_of_false (fun h => (by cases h)) fun h => (by cases h.1)
  · constructor
    · intro h
      cases h
      exact ⟨rfl, rfl⟩
    · rintro ⟨hentry, hkey⟩
      cases hentry
      exact congrArg some (Prod.ext hkey rfl)

/-- **One call assigns its entry to its place**, or leaves the entries alone. -/
theorem step_registryMetadata (s : MemoryLedger) (c : Registration) :
    (step P s c).registryMetadata = s.registryMetadata.merge (c.binding P).toList := by
  rw [step, MemoryLedger.register, binding, entry, definition]
  dsimp only
  split
  · rename_i e hhash
    rw [hhash]
    rfl
  · rename_i hash hhash
    rw [hhash]
    rfl

/-- **The entries after a run** are those at the start, with the assignments of the calls. -/
theorem exec_registryMetadata (s : MemoryLedger) (calls : List Registration) :
    (exec P s calls).registryMetadata
      = s.registryMetadata.merge (calls.filterMap (binding P)) := by
  induction calls using List.reverseRecOn with
  | nil => rfl
  | append_singleton calls c ih =>
    rw [exec, exec_concat, step_registryMetadata, ih, List.filterMap_append, Dict.merge,
      Dict.merge, Dict.merge, List.foldl_append]
    rcases hb : c.binding P with _ | b
    · rw [List.filterMap_cons_none hb, List.filterMap_nil]
      rfl
    · rw [List.filterMap_cons_some hb, List.filterMap_nil]
      rfl

theorem Filed.step (hs : Filed s) (c : Registration) : Filed (step P s c) := by
  intro k e he
  rw [step_registryMetadata] at he
  rcases hb : c.binding P with _ | b
  · rw [hb] at he
    exact hs k e he
  · rw [hb] at he
    have hset : (s.registryMetadata.set b.1 b.2).get? k = some e := he
    rcases Dict.get?_set_cases hset with ⟨rfl, rfl⟩ | ⟨-, hold⟩
    · exact (binding_eq_some.mp hb).2
    · exact hs k e hold

theorem Filed.exec (hs : Filed s) (calls : List Registration) : Filed (exec P s calls) :=
  exec_inv (fun _ c hs => hs.step c) hs calls

/-! ### What is registered -/

theorem registered_iff : s.registered kind name cut = true ↔
    ∃ e ∈ s.registryMetadata.values, e.kind = kind ∧ (e.name = name ∨ e.hash = name) ∧
      e.bornAt ∈ cut := by
  simp only [MemoryLedger.registered, List.any_eq_true, decide_eq_true_eq]

theorem mem_registryEntries {kind : Option String} : e ∈ s.registryEntries kind cut ↔
    e ∈ s.registryMetadata.values ∧ e.bornAt ∈ cut ∧ (kind = none ∨ kind = some e.kind) := by
  rw [MemoryLedger.registryEntries, List.mem_insertionSort, List.mem_filter, decide_eq_true_eq]

theorem Filed.mem_values_iff (hs : Filed s) :
    e ∈ s.registryMetadata.values ↔ s.registryMetadata.get? e.key = some e := by
  rw [Dict.mem_values_iff]
  constructor
  · rintro ⟨k, he⟩
    rwa [hs k e he]
  · exact fun he => ⟨e.key, he⟩

/-- **A run keeps what is registered exactly when its entries only grow.** -/
theorem Filed.permanent_iff_le (hs : Filed s) : Permanent P s calls ↔
    ∀ pre post, pre <+: post → post <+: calls →
      (Registration.exec P s pre).registryMetadata
        ≤ (Registration.exec P s post).registryMetadata := by
  constructor
  · intro h pre post hpre hpost k e he
    have hkey := hs.exec pre k e he
    have hmem : e ∈ (Registration.exec P s pre).registryEntries none {e.bornAt} :=
      mem_registryEntries.mpr ⟨Dict.mem_values_of_get? he, Finset.mem_singleton_self _, Or.inl rfl⟩
    have hmem' := mem_registryEntries.mp (h.registryEntries pre post _ _ hpre hpost hmem)
    rw [← hkey]
    exact (hs.exec post).mem_values_iff.mp hmem'.1
  · intro h
    have hvalues : ∀ pre post, pre <+: post → post <+: calls →
        ∀ e ∈ (Registration.exec P s pre).registryMetadata.values,
          e ∈ (Registration.exec P s post).registryMetadata.values := by
      intro pre post hpre hpost e he
      rw [Dict.mem_values_iff] at he ⊢
      obtain ⟨k, hk⟩ := he
      exact ⟨k, h pre post hpre hpost k e hk⟩
    constructor
    · intro pre post kind name cut hpre hpost hregistered
      obtain ⟨e, he, hentry⟩ := registered_iff.mp hregistered
      exact registered_iff.mpr ⟨e, hvalues pre post hpre hpost e he, hentry⟩
    · intro pre post kind cut hpre hpost e he
      rw [mem_registryEntries] at he ⊢
      exact ⟨hvalues pre post hpre hpost e he.1, he.2⟩

/-- Calls that agree make assignments that do. -/
theorem agreeing_iff :
    Agreeing P s calls ↔ s.registryMetadata.Agree (calls.filterMap (binding P)) := by
  constructor
  · intro h
    refine ⟨?_, List.pairwise_filterMap.mpr (h.pairwise.imp ?_)⟩
    · intro b hb old hold
      obtain ⟨c, hc, hbinding⟩ := List.mem_filterMap.mp hb
      obtain ⟨hentry, hkey⟩ := binding_eq_some.mp hbinding
      exact h.initial c hc b.2 hentry old (hkey ▸ hold)
    · intro c c' hcc' b hb b' hb' heq
      obtain ⟨hentry, hkey⟩ := binding_eq_some.mp hb
      obtain ⟨hentry', hkey'⟩ := binding_eq_some.mp hb'
      exact hcc' b.2 b'.2 hentry hentry' (hkey.trans (heq.trans hkey'.symm))
  · intro h
    refine ⟨?_, (List.pairwise_filterMap.mp h.pairwise).imp ?_⟩
    · intro c hc e hentry old hold
      have hbinding : c.binding P = some (e.key, e) := binding_eq_some.mpr ⟨hentry, rfl⟩
      exact h.initial _ (List.mem_filterMap.mpr ⟨c, hc, hbinding⟩) old hold
    · intro c c' hcc' e e' hentry hentry' hkey
      exact hcc' (e.key, e) (binding_eq_some.mpr ⟨hentry, rfl⟩) (e'.key, e')
        (binding_eq_some.mpr ⟨hentry', rfl⟩) hkey

/-- A name stays registered, whatever is registered after it. -/
theorem Named.exec (hs : Filed s) (h : pre <+: post)
    (hnamed : Named (Registration.exec P s pre) kind name cut) :
    Named (Registration.exec P s post) kind name cut := by
  obtain ⟨e, he, hkind, hname, hborn⟩ := hnamed
  have hpre := (hs.exec pre).mem_values_iff.mp he
  -- The place is not given up, and the entry in it has its kind, name and birth Act.
  obtain ⟨e', he'⟩ : ∃ e', (Registration.exec P s post).registryMetadata.get? e.key = some e' := by
    obtain ⟨rest, rfl⟩ := h
    have happend : Registration.exec P s (pre ++ rest)
        = Registration.exec P (Registration.exec P s pre) rest := List.foldl_append ..
    rw [happend, exec_registryMetadata]
    exact Dict.mem_keys_iff.mp (Dict.mem_keys_merge.mpr (Or.inl (Dict.mem_keys_of_get? hpre)))
  have hkey : e'.key = e.key := hs.exec post e.key e' he'
  simp only [RegistryEntry.key, Prod.mk.injEq] at hkey
  obtain ⟨hkind', hname', hborn'⟩ := hkey
  exact ⟨e', Dict.mem_values_of_get? he', hkind'.trans hkind, hname'.trans hname, hborn' ▸ hborn⟩

variable (P)

/-- **What is registered stays registered** unless its place is used for another entry.
In every run, a name that is registered at a cut stays so; and the versions and their hashes
stay, with all entries, exactly when no call is for the kind, name and birth Act of an entry
that differs from its own. -/
theorem permanent_iff (s : MemoryLedger) (hs : Filed s) (calls : List Registration) :
    (∀ pre post kind name cut, pre <+: post → post <+: calls →
        Named (Registration.exec P s pre) kind name cut →
        Named (Registration.exec P s post) kind name cut) ∧
      (Permanent P s calls ↔ Agreeing P s calls) := by
  refine ⟨fun pre post kind name cut hpre _ hnamed => hnamed.exec hs hpre, ?_⟩
  rw [hs.permanent_iff_le, agreeing_iff, Dict.agree_iff_le]
  simp only [exec_registryMetadata]
  constructor
  · intro h pre post hpre hpost
    obtain ⟨post', hpost', rfl⟩ := List.prefix_filterMap_iff.mp hpost
    obtain ⟨pre', hpre', rfl⟩ := List.prefix_filterMap_iff.mp hpre
    exact h pre' post' hpre' hpost'
  · intro h pre post hpre hpost
    exact h _ _ (hpre.filterMap _) (hpost.filterMap _)

theorem filed_fresh : Filed MemoryLedger.fresh := by
  intro k e he
  cases he

end Registration

namespace Sample

/-- A Rule is registered at genesis. -/
def firstVersion : Registration where
  kind := "rule"
  name := "test.allow"
  bornAt := genesisHash ""
  entryHash := some "1111"

/-- A second version of it, born at some Act. -/
def secondVersion (bornAt : Hash) : Registration where
  kind := "rule"
  name := "test.allow"
  bornAt := bornAt
  version := 2
  entryHash := some "2222"

end Sample

namespace Registration

/-- A version that is born later leaves the first where it is. -/
theorem permanent_iff_later : Permanent (Sample.primitives "") MemoryLedger.fresh
    [Sample.firstVersion, Sample.secondVersion "3333"] := by
  refine (permanent_iff _ _ filed_fresh _).2.mpr ⟨fun c _ e _ old hold => (by cases hold), ?_⟩
  refine List.pairwise_pair.mpr fun e e' he he' hkey => ?_
  cases he
  cases he'
  have hborn : Sample.genesisHash "" ≠ "3333" := by decide
  exact absurd (congrArg (fun key => key.2.2) hkey) hborn

/-- **A version is lost**: the second version of a Rule, born at the Act of the first, takes
its place. The hash an Act cites the first by is registered no more, and its entry is gone. -/
theorem not_permanent_together :
    ¬Permanent (Sample.primitives "") MemoryLedger.fresh
      [Sample.firstVersion, Sample.secondVersion (Sample.genesisHash "")] ∧
    (exec (Sample.primitives "") MemoryLedger.fresh [Sample.firstVersion]).registered "rule"
      "1111" {Sample.genesisHash ""} = true ∧
    (exec (Sample.primitives "") MemoryLedger.fresh [Sample.firstVersion,
      Sample.secondVersion (Sample.genesisHash "")]).registered "rule" "1111"
        {Sample.genesisHash ""} = false := by
  refine ⟨fun h => ?_, by decide, by decide⟩
  have hlost := h.registered [Sample.firstVersion] _ "rule" "1111" {Sample.genesisHash ""}
    (List.prefix_append _ [Sample.secondVersion (Sample.genesisHash "")]) List.prefix_rfl
    (by decide)
  revert hlost
  decide

end Registration

end PowerfarmKernel
