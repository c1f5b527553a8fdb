import PowerfarmKernel.Kernel.History
import PowerfarmKernel.Ledger.Agreement
import PowerfarmKernel.Service.Sample

/-!
# What the conformance store says about the production store

The conformance tests run the gate over the in-memory ledger; production runs it over the
database. `PowerfarmKernel.SameContent` relates a ledger and a database that hold the same
Acts, objects, registry entries and identities, and `PowerfarmKernel.gate_agrees` compares
the two gates on every call: the database accepts what the ledger accepts and the database
admits on its own terms (`PowerfarmKernel.Postgres.Admits`), it answers with the same Act,
and the two then hold the same again. What the database refuses beyond the ledger is real:
`PowerfarmKernel.unknown_identity_divides`.
-/

namespace PowerfarmKernel

open Prog LedgerM

/-! ### The same content -/

/-- A row of the registry and an entry of the in-memory ledger that say the same. -/
def RegistryRow.Of (r : RegistryRow) (e : RegistryEntry) : Prop :=
  r.hash = e.hash ∧ r.kind = e.kind ∧ r.name = e.name ∧ r.version = e.version ∧
    r.bornAt = e.bornAt ∧ r.constitutional = e.constitutional

instance (r : RegistryRow) (e : RegistryEntry) : Decidable (r.Of e) :=
  inferInstanceAs (Decidable (_ ∧ _ ∧ _ ∧ _ ∧ _ ∧ _))

/-- **A ledger and a database hold the same Acts.** -/
structure SameActs (m : MemoryLedger) (db : Postgres) : Prop where
  acts : ∀ k a, m.acts.get? k = some a ↔ a ∈ db.acts ∧ a.hash = k
  actObjects : ∀ k canon, m.objects.get? k = some (canon, "act") ↔
    db.objects.get? k = some (canon, "act")

/-- **A ledger and a database hold the same**: Acts, the ledger's index listing exactly
these, objects, registry entries and identities. -/
structure SameContent (m : MemoryLedger) (db : Postgres) : Prop where
  acts : ∀ k a, m.acts.get? k = some a ↔ a ∈ db.acts ∧ a.hash = k
  indexed : ∀ h k, k ∈ Gate.indexed m h ↔ ∃ a ∈ db.acts, a.hash = k ∧ a.commandHash = h
  objects : ∀ k, db.objects.get? k = m.objects.get? k
  rows : ∀ r ∈ db.registry, ∃ e ∈ m.registryMetadata.values, r.Of e
  entries : ∀ e ∈ m.registryMetadata.values, ∃ r ∈ db.registry, r.Of e
  identities : ∀ h, (m.identities.get? h).map Identity.kind = db.identities.get? h

namespace SameContent

variable {P : Primitives} {m : MemoryLedger} {db : Postgres} {c : Submission} {a : Act}

theorem sameActs (h : SameContent m db) : SameActs m db :=
  ⟨h.acts, fun k canon => by rw [h.objects]⟩

theorem registered (h : SameContent m db) (kind name : String) (cut : Cut) :
    db.registered kind name cut = m.registered kind name cut := by
  rw [Bool.eq_iff_iff, Postgres.registered, MemoryLedger.registered, List.any_eq_true,
    List.any_eq_true]
  simp only [decide_eq_true_eq]
  constructor
  · rintro ⟨r, hr, hkind, hname, hborn⟩
    obtain ⟨e, he, hhash, hekind, hename, -, heborn, -⟩ := h.rows r hr
    rw [hekind] at hkind
    rw [hename, hhash] at hname
    rw [heborn] at hborn
    exact ⟨e, he, hkind, hname, hborn⟩
  · rintro ⟨e, he, hkind, hname, hborn⟩
    obtain ⟨r, hr, hhash, hekind, hename, -, heborn, -⟩ := h.entries e he
    rw [← hekind] at hkind
    rw [← hename, ← hhash] at hname
    rw [← heborn] at hborn
    exact ⟨r, hr, hkind, hname, hborn⟩

/-- The ledger is asked for the Acts of a Command and finds those of the database. -/
theorem getActsForCommand (h : SameContent m db) (commandHash : Hash) :
    ∃ owned, m.getActsForCommand commandHash = .ok owned ∧
      ∀ a, a ∈ owned ↔ a ∈ db.acts ∧ a.commandHash = commandHash := by
  have hbacked : ∀ k ∈ (m.commandIndex.get? commandHash).getD [],
      ∃ act, m.acts.get? k = some act := by
    intro k hk
    obtain ⟨b, hb, hhash, -⟩ := (h.indexed commandHash k).mp hk
    exact ⟨b, (h.acts k b).mpr ⟨hb, hhash⟩⟩
  obtain ⟨owned, howned⟩ := MemoryStore.getActsForCommand_ok hbacked
  refine ⟨owned, howned, fun a => ?_⟩
  rw [MemoryStore.mem_getActsForCommand howned]
  constructor
  · rintro ⟨k, hk, hget⟩
    obtain ⟨b, hb, hhash, hcommand⟩ := (h.indexed commandHash k).mp hk
    have hsame := (h.acts k b).mpr ⟨hb, hhash⟩
    rw [hget, Option.some.injEq] at hsame
    exact hsame ▸ ⟨hb, hcommand⟩
  · rintro ⟨ha, hcommand⟩
    exact ⟨a.hash, (h.indexed commandHash a.hash).mpr ⟨a, ha, rfl, hcommand⟩,
      (h.acts a.hash a).mpr ⟨ha, rfl⟩⟩

/-- **The gate cannot tell the ledger from the database.** -/
theorem alike (h : SameContent m db) (hc : Postgres.Constraints db) :
    Alike MemoryLedger.registered (fun _ => db.registered) m db.asMemory where
  acts k := by
    ext a
    rw [Postgres.get?_asMemory hc, Postgres.getAct_eq_some_iff hc, h.acts]
  objects := h.objects
  owned x := by
    obtain ⟨owned, howned, hmem⟩ := h.getActsForCommand x
    refine ⟨owned, _, howned, Postgres.getActsForCommand_asMemory hc, fun a => ?_⟩
    rw [hmem, Postgres.mem_getActsForCommand]
  registered := h.registered

/-- **An admission on both sides keeps the content the same.** -/
theorem placed (h : SameContent m db) {t : MemoryLedger} (hadm : m.acts.get? a.hash = none)
    (hplaced : Placed P m t c a) {objects : Dict Hash (Bytes × String)}
    (hobjects : ∀ k, objects.get? k = t.objects.get? k) :
    SameContent t { db with objects := objects, acts := db.acts ++ [a] } where
  acts k b := by
    rw [hplaced.get?_iff hadm, h.acts]
    change _ ↔ b ∈ db.acts ++ [a] ∧ b.hash = k
    rw [List.mem_append, List.mem_singleton]
    constructor
    · rintro (⟨rfl, rfl⟩ | ⟨hb, rfl⟩)
      · exact ⟨Or.inr rfl, rfl⟩
      · exact ⟨Or.inl hb, rfl⟩
    · rintro ⟨hb | rfl, rfl⟩
      · exact Or.inr ⟨hb, rfl⟩
      · exact Or.inl ⟨rfl, rfl⟩
  indexed x k := by
    rw [Gate.mem_indexed_iff hplaced, h.indexed]
    change _ ↔ ∃ b ∈ db.acts ++ [a], _
    simp only [List.mem_append, List.mem_singleton]
    constructor
    · rintro (⟨b, hb, hrest⟩ | ⟨rfl, rfl⟩)
      · exact ⟨b, Or.inl hb, hrest⟩
      · exact ⟨a, Or.inr rfl, rfl, rfl⟩
    · rintro ⟨b, hb | rfl, hhash, hcommand⟩
      · exact Or.inl ⟨b, hb, hhash, hcommand⟩
      · exact Or.inr ⟨hhash.symm, hcommand.symm⟩
  objects := hobjects
  rows r hr := by
    rw [hplaced.registryMetadata]
    exact h.rows r hr
  entries e he := by
    rw [hplaced.registryMetadata] at he
    exact h.entries e he
  identities x := by
    rw [hplaced.identities]
    exact h.identities x

end SameContent

/-! ### The comparison -/

section Comparison

variable {P : Primitives} {m : MemoryLedger} {db : Postgres} {c : Submission} {a : Act}

/-- **What the database asks of the Act a call admits.** -/
def Submission.AdmittedBy (P : Primitives) (db : Postgres) (c : Submission) (a : Act) : Prop :=
  db.Admits a (canonBytes P (CommitGate.actValue c a.commandHash a.contextHash))
    c.command.commandType

/-- The writes of a call are refused by both or by neither. -/
theorem SameContent.refused_iff (h : SameContent m db) :
    db.objects.Refused (CommitGate.writes P c a) ↔ m.objects.Refused (CommitGate.writes P c a) := by
  rw [← Dict.putAll_fst, ← Dict.putAll_fst, (Dict.putAll_congr h.objects _).1]

/-- A refused commit leaves the ledger in memory its Acts and their objects. -/
theorem SameContent.sameActs_of_refused (h : SameContent m db) {t : Postgres}
    (hrefused : m.objects.Refused (CommitGate.writes P c a)) (hkept : Postgres.ActsKept db t) :
    SameActs { m with objects := (m.objects.putAll (CommitGate.writes P c a)).2 } t := by
  refine ⟨fun k b => by rw [hkept.acts]; exact h.acts k b, fun k canon => ?_⟩
  have hbefore : (m.objects.putAll (CommitGate.writes P c a)).2.get? k = some (canon, "act") ↔
      m.objects.get? k = some (canon, "act") := by
    refine ⟨fun hk => ?_, Dict.le_putAll _ _ k _⟩
    -- The object of the Act is the last to be put, and is not reached.
    have hstop : (m.objects.putAll (CommitGate.writes P c a)).2 = (m.objects.putAll
        [(a.commandHash, (canonBytes P c.command.signingValue, "command")),
          (a.contextHash, (canonBytes P c.context.canonicalValue, "context"))]).2 :=
      Dict.putAll_concat_of_refused m.objects [_, _]
        (a.hash, (canonBytes P (CommitGate.actValue c a.commandHash a.contextHash), "act")) hrefused
    rw [hstop] at hk
    rcases Dict.get?_putAll _ _ hk with hold | hput
    · exact hold
    · simp at hput
  rw [hbefore, ← h.objects]
  exact ⟨hkept.objects k _, hkept.actObjects k canon⟩

/-- A call whose Act the checks of the gate let through: its writes are refused on both sides,
or the ledger commits the Act and the database does so just when it admits it. -/
theorem SameContent.run_commit_of_admission (h : SameContent m db)
    (hc : Postgres.Constraints db) (hadm : Admission P MemoryLedger.registered m c a) :
    (∃ e m' e' t, (CommitGate.commit P c).run (MemoryLedger.handle MemoryLedger.registered) m
        = (.error e, m') ∧
      (CommitGate.commit P c).run (Postgres.handle P) db = (.error e', t) ∧ SameActs m' t) ∨
    ∃ m', (CommitGate.commit P c).run (MemoryLedger.handle MemoryLedger.registered) m
        = (.ok a, m') ∧
      ((¬c.AdmittedBy P db a ∧ ∃ e' t,
          (CommitGate.commit P c).run (Postgres.handle P) db = (.error e', t)) ∨
        (c.AdmittedBy P db a ∧ ∃ t,
          (CommitGate.commit P c).run (Postgres.handle P) db = (.ok a, t) ∧
            SameContent m' t)) := by
  have hadm' := (h.alike hc).admission hadm
  rcases hdatabase : (CommitGate.commit P c).run (Postgres.handle P) db with ⟨r, t⟩
  have hwrite := hdatabase
  rw [Postgres.run_commit_of_admission hc hadm'] at hwrite
  by_cases hrefused : m.objects.Refused (CommitGate.writes P c a)
  · -- Both put the same objects in the same order, so the same one is refused.
    obtain ⟨e, hmemory⟩ := CommitGate.run_write_of_refused hadm hrefused
    rw [← CommitGate.run_commit_of_admission hadm] at hmemory
    rcases r with e' | r
    · have hkept := h.sameActs_of_refused hrefused (Postgres.raisesKeep_write _ _ _ hwrite)
      exact Or.inl ⟨e, _, e', t, hmemory, rfl, hkept⟩
    · obtain ⟨-, -, hnot, -⟩ := (Postgres.run_write_ok_iff hc hadm').mp hwrite
      exact absurd (h.refused_iff.mpr hrefused) hnot
  have hnot : ¬db.objects.Refused (CommitGate.writes P c a) := mt h.refused_iff.mp hrefused
  have hmemory := CommitGate.run_write_of_not_refused hadm hrefused
  rw [← CommitGate.run_commit_of_admission hadm] at hmemory
  refine Or.inr ⟨_, hmemory, ?_⟩
  rcases r with e' | r
  · -- The database raises, so it does not admit the Act.
    refine Or.inl ⟨fun hadmits => ?_, e', t, rfl⟩
    have hok := (Postgres.run_write_ok_iff hc hadm').mpr ⟨rfl, hadmits, hnot, rfl⟩
    rw [hwrite] at hok
    cases hok
  obtain ⟨rfl, hadmits, -, rfl⟩ := (Postgres.run_write_ok_iff hc hadm').mp hwrite
  refine Or.inr ⟨hadmits, _, rfl, ?_⟩
  rcases CommitGate.commit_cases hmemory with
    ⟨e, herr, -⟩ | ⟨b, k, hb, -, hget, -⟩ | ⟨b, hb, -, hplaced⟩
  · cases herr
  · cases hb
    have hfresh := hadm.fresh
    rw [((h.acts k r).mp hget).2, hget] at hfresh
    cases hfresh
  · cases hb
    exact h.placed hadm.fresh hplaced (Dict.putAll_congr h.objects _).2

/-- **The two stores under the gate.** On every call, over a ledger and a database that hold
the same: the database returns an Act just when the ledger does and either the Act holds its
place already or the database admits it; they return the same Act, and then hold the same
again; and when the ledger raises, so does the database, and they hold the same Acts and
objects of Acts. -/
theorem gate_agrees (P : Primitives) (m : MemoryLedger) (db : Postgres)
    (hsame : SameContent m db) (hc : Postgres.Constraints db) (c : Submission) :
    (∀ a, ((CommitGate.commit P c).run (Postgres.handle P) db).1 = .ok a ↔
        ((CommitGate.commit P c).run (MemoryLedger.handle MemoryLedger.registered) m).1 = .ok a ∧
          (m.acts.get? a.hash = some a ∨ c.AdmittedBy P db a)) ∧
      (∀ a, ((CommitGate.commit P c).run (Postgres.handle P) db).1 = .ok a →
        SameContent ((CommitGate.commit P c).run (MemoryLedger.handle MemoryLedger.registered) m).2
          ((CommitGate.commit P c).run (Postgres.handle P) db).2) ∧
      ∀ e, ((CommitGate.commit P c).run (MemoryLedger.handle MemoryLedger.registered) m).1
          = .error e →
        SameActs ((CommitGate.commit P c).run (MemoryLedger.handle MemoryLedger.registered) m).2
          ((CommitGate.commit P c).run (Postgres.handle P) db).2 := by
  have halike := hsame.alike hc
  by_cases hreplay : ∃ a, CommitGate.Replays P m c a
  · -- The place is taken on both sides, and both hand out what stands there.
    obtain ⟨a, hreplay⟩ := hreplay
    rw [CommitGate.run_commit_of_replays hreplay,
      Postgres.run_commit_of_replays hc (halike.replays hreplay)]
    refine ⟨fun b => ⟨fun hb => ⟨hb, Or.inl ?_⟩, fun hb => hb.1⟩, fun _ _ => hsame,
      fun e he => (by cases he)⟩
    cases hb
    obtain ⟨k, -, hget⟩ := hreplay.held
    rw [((hsame.acts k a).mp hget).2]
    exact hget
  by_cases hadm : ∃ a, Admission P MemoryLedger.registered m c a
  · obtain ⟨a, hadm⟩ := hadm
    rcases hsame.run_commit_of_admission hc hadm with
      ⟨e, m', e', t, hmemory, hdatabase, hkept⟩ |
      ⟨m', hmemory, ⟨hnot, e', t, hdatabase⟩ | ⟨hadmits, t, hdatabase, hafter⟩⟩
    · rw [hmemory, hdatabase]
      exact ⟨fun b => ⟨fun h => (by cases h), fun h => (by cases h.1)⟩, fun b h => (by cases h),
        fun _ _ => hkept⟩
    · rw [hmemory, hdatabase]
      refine ⟨fun b => ⟨fun h => (by cases h), fun h => ?_⟩, fun b h => (by cases h),
        fun e h => (by cases h)⟩
      obtain ⟨hb, hheld | hadmits⟩ := h
      · cases hb
        rw [hadm.fresh] at hheld
        cases hheld
      · cases hb
        exact absurd hadmits hnot
    · rw [hmemory, hdatabase]
      refine ⟨fun b => ⟨fun h => ⟨h, ?_⟩, fun h => h.1⟩, fun _ _ => hafter,
        fun e h => (by cases h)⟩
      cases h
      exact Or.inr hadmits
  · -- The checks of the gate refuse it, and they see the same on both sides.
    obtain ⟨e, hmemory⟩ := CommitGate.run_commit_refused (not_exists.mp hreplay)
      (not_exists.mp hadm)
    obtain ⟨e', hdatabase⟩ := Postgres.run_commit_refused hc
      (fun a ha => hreplay ⟨a, halike.symm.replays ha⟩)
      (fun a ha => hadm ⟨a, halike.symm.admission ha⟩)
    rw [hmemory, hdatabase]
    exact ⟨fun a => ⟨fun h => (by cases h), fun h => (by cases h.1)⟩, fun a h => (by cases h),
      fun _ _ => hsame.sameActs⟩

end Comparison

/-! ### A ledger and a database after genesis -/

namespace Sample

/-- The ledger in memory that holds what `database` holds. -/
def twin : MemoryLedger where
  objects := database.objects
  acts := Dict.empty.set (genesisHash pad) (genesis pad)
  commandIndex := Dict.empty.set "genesis-command" [genesisHash pad]
  registry := []
  identities := Dict.empty.set root.hash root
  principalBindings := Dict.empty
  registryMetadata := Dict.empty.merge (names.map fun e => ((e.1, e.2, genesisHash pad),
    ⟨nameHash e.2, e.1, e.2, 1, genesisHash pad, true, .null⟩))

theorem sameContent_twin : SameContent twin database where
  acts k a := by
    have hget : twin.acts.get? k = if k = genesisHash pad then some (genesis pad) else none :=
      Dict.get?_set
    have hacts : a ∈ database.acts ↔ a = genesis pad := List.mem_singleton
    rw [hget, hacts]
    constructor
    · intro h
      split at h
      · rename_i hk
        cases h
        exact ⟨rfl, hk.symm⟩
      · cases h
    · rintro ⟨rfl, rfl⟩
      exact if_pos rfl
  indexed h k := by
    have hindex : Gate.indexed twin h =
        if h = "genesis-command" then [genesisHash pad] else [] := by
      rw [Gate.indexed, twin, Dict.get?_set]
      split <;> rfl
    have hacts : (∃ a ∈ database.acts, a.hash = k ∧ a.commandHash = h) ↔
        genesisHash pad = k ∧ "genesis-command" = h := by
      simp [database, genesis]
    rw [hindex, hacts]
    by_cases hh : h = "genesis-command"
    · simp [hh, eq_comm]
    · simp [hh, Ne.symm hh]
  objects _ := rfl
  rows := by decide +kernel
  entries := by decide +kernel
  identities h := by
    have hget : twin.identities.get? h = if h = root.hash then some root else none := Dict.get?_set
    have hkind : database.identities.get? h = if h = root.hash then some root.kind else none :=
      Dict.get?_set
    rw [hget, hkind]
    split <;> rfl

end Sample

/-- The thing is made in both, and they hold the same again. -/
theorem gate_agrees_thing : ∃ a,
    ((CommitGate.commit Sample.libraries (Sample.makeThing [])).run
      (MemoryLedger.handle MemoryLedger.registered) Sample.twin).1 = .ok a ∧
    SameContent ((CommitGate.commit Sample.libraries (Sample.makeThing [])).run
        (MemoryLedger.handle MemoryLedger.registered) Sample.twin).2
      ((CommitGate.commit Sample.libraries (Sample.makeThing [])).run
        (Postgres.handle Sample.libraries) Sample.database).2 := by
  have hok : ((CommitGate.commit Sample.libraries (Sample.makeThing [])).run
      (Postgres.handle Sample.libraries) Sample.database).1.isOk = true := by
    decide +kernel
  obtain ⟨hiff, hcontent, -⟩ := gate_agrees Sample.libraries Sample.twin Sample.database
    Sample.sameContent_twin Sample.constraints_database (Sample.makeThing [])
  rcases hrun : ((CommitGate.commit Sample.libraries (Sample.makeThing [])).run
      (Postgres.handle Sample.libraries) Sample.database).1 with e | a
  · rw [hrun] at hok
    cases hok
  · exact ⟨a, ((hiff a).mp hrun).1, hcontent a hrun⟩

namespace Sample

/-- An Identity that neither store knows. -/
def stranger : Identity := ⟨"bbbb" ++ pad, "human", List.replicate 32 1⟩

/-- The stranger's call for a thing. -/
def strangerThing : Submission :=
  { makeThing [] with
    identity := stranger
    command := signed pad stranger.publicKey
      ⟨"CreateThing", stranger.hash, genesisHash pad, [genesisHash pad], "n-1", []⟩ }

end Sample

/-- **An unknown Identity divides the stores**: over the ledger the gate takes the Identity it is
given and the Act is accepted, the database looks the Identity up and refuses it. -/
theorem unknown_identity_divides :
    SameContent Sample.twin Sample.database ∧ Postgres.Constraints Sample.database ∧
    Sample.twin.identities.get? Sample.stranger.hash = none ∧
    ((CommitGate.commit Sample.libraries Sample.strangerThing).run
      (MemoryLedger.handle MemoryLedger.registered) Sample.twin).1.isOk = true ∧
    ((CommitGate.commit Sample.libraries Sample.strangerThing).run
      (Postgres.handle Sample.libraries) Sample.database).1.isOk = false := by
  refine ⟨Sample.sameContent_twin, Sample.constraints_database, ?_, ?_, ?_⟩
  · decide +kernel
  · decide +kernel
  · decide +kernel

end PowerfarmKernel
