import PowerfarmKernel.Kernel.Writes
import PowerfarmKernel.Ledger.Postgres

/-!
# The two stores under the gate

The gate is one program, run over the in-memory ledger and over the database. The database
reads back what the in-memory ledger reads back, but it asks more of an Act before it
inserts it.

* `PowerfarmKernel.Postgres.asMemory` is the database read as a ledger in memory, and
  `PowerfarmKernel.Postgres.run_head` says that the gate, up to its writes, runs over the
  two alike. So what is proved of the gate over a ledger in memory holds over the database.
* `PowerfarmKernel.Postgres.Admits` lists what the database asks on its own.
* `PowerfarmKernel.SameContent` relates a ledger and a database that hold the same, and
  `PowerfarmKernel.gate_agrees` is the comparison.
-/

namespace PowerfarmKernel

open Prog LedgerM

/-! ### The database, read as a ledger in memory -/

namespace Postgres

variable {P : Primitives} {db : Postgres} {c : Submission} {a : Act} {h : Hash}

/-- The Acts of each Command, by their hashes. -/
def trajectories (db : Postgres) : List (Hash × List Hash) :=
  db.acts.map fun a => (a.commandHash, (db.getActsForCommand a.commandHash).map Act.hash)

/-- **The database as a ledger in memory.** The gate asks no more of the registry than
whether a name is registered, and that is answered by the database itself. -/
def asMemory (db : Postgres) : MemoryLedger where
  objects := db.objects
  acts := Dict.empty.merge (db.acts.map fun a => (a.hash, a))
  commandIndex := Dict.empty.merge db.trajectories
  registry := []
  identities := Dict.empty
  principalBindings := Dict.empty
  registryMetadata := Dict.empty

theorem getAct_eq_some_iff (hc : Constraints db) :
    db.getAct h = some a ↔ a ∈ db.acts ∧ a.hash = h := by
  refine ⟨getAct_eq_some, ?_⟩
  rintro ⟨ha, rfl⟩
  rcases hget : db.getAct a.hash with _ | b
  · exact absurd ⟨a, ha, rfl⟩ (getAct_eq_none_iff.mp hget)
  · obtain ⟨hb, hhash⟩ := getAct_eq_some hget
    rw [List.inj_on_of_nodup_map hc.actsHash hb ha hhash]

theorem get?_asMemory (hc : Constraints db) : db.asMemory.acts.get? h = db.getAct h := by
  ext a
  rw [getAct_eq_some_iff hc]
  change (Dict.empty.merge (db.acts.map fun a => (a.hash, a))).get? h = some a ↔ _
  rw [Dict.get?_merge_empty, List.mem_map]
  · constructor
    · rintro ⟨b, hb, heq⟩
      obtain ⟨rfl, rfl⟩ := Prod.mk.inj heq
      exact ⟨hb, rfl⟩
    · rintro ⟨ha, rfl⟩
      exact ⟨a, ha, rfl⟩
  · intro k b b' hb hb'
    obtain ⟨x, hx, hxeq⟩ := List.mem_map.mp hb
    obtain ⟨y, hy, hyeq⟩ := List.mem_map.mp hb'
    obtain ⟨rfl, rfl⟩ := Prod.mk.inj hxeq
    obtain ⟨hhash, rfl⟩ := Prod.mk.inj hyeq
    exact (List.inj_on_of_nodup_map hc.actsHash hy hx hhash).symm

theorem historyCut_asMemory (hc : Constraints db) :
    db.asMemory.toMemoryStore.historyCut = db.historyCut := by
  ext x
  rw [MemoryStore.mem_historyCut, mem_historyCut, get?_asMemory hc]
  constructor
  · rintro ⟨a, ha⟩
    obtain ⟨hmem, hhash⟩ := getAct_eq_some ha
    exact ⟨a, hmem, hhash⟩
  · rintro ⟨a, ha, hhash⟩
    exact ⟨a, (getAct_eq_some_iff hc).mpr ⟨ha, hhash⟩⟩

/-- The Acts of a Command are indexed under it. -/
theorem commandIndex_asMemory : (db.asMemory.commandIndex.get? h).getD []
    = (db.getActsForCommand h).map Act.hash := by
  have hindex : ∀ hashes, db.asMemory.commandIndex.get? h = some hashes ↔
      (h, hashes) ∈ db.trajectories := by
    intro hashes
    refine Dict.get?_merge_empty fun k v w hv hw => ?_
    obtain ⟨x, -, hx⟩ := List.mem_map.mp hv
    obtain ⟨y, -, hy⟩ := List.mem_map.mp hw
    obtain ⟨rfl, rfl⟩ := Prod.mk.inj hx
    obtain ⟨hcommand, rfl⟩ := Prod.mk.inj hy
    rw [hcommand]
  rcases hget : db.asMemory.commandIndex.get? h with _ | hashes
  · -- No Act of this Command stands there.
    have hnone : db.getActsForCommand h = [] := by
      refine List.eq_nil_iff_forall_not_mem.mpr fun a ha => ?_
      obtain ⟨hmem, rfl⟩ := mem_getActsForCommand.mp ha
      have hbound := (hindex _).mpr (List.mem_map.mpr ⟨a, hmem, rfl⟩)
      rw [hget] at hbound
      cases hbound
    rw [hnone]
    rfl
  · obtain ⟨a, -, heq⟩ := List.mem_map.mp ((hindex hashes).mp hget)
    obtain ⟨rfl, rfl⟩ := Prod.mk.inj heq
    rfl

theorem getActsForCommand_asMemory (hc : Constraints db) :
    db.asMemory.toMemoryStore.getActsForCommand h = .ok (db.getActsForCommand h) := by
  rw [MemoryStore.getActsForCommand_ok_iff, commandIndex_asMemory, List.forall₂_map_left_iff,
    List.forall₂_same]
  intro a ha
  rw [get?_asMemory hc, getAct_eq_some_iff hc]
  exact ⟨(mem_getActsForCommand.mp ha).1, rfl⟩

/-- **The database reads as the ledger in memory does**, as far as the gate reads. -/
theorem handle_gateRead (hc : Constraints db) {o : LedgerOp} (ho : o.IsGateRead) :
    (handle P o db).2 = db ∧
      (MemoryLedger.handle (fun _ => db.registered) o db.asMemory).2 = db.asMemory ∧
      (handle P o db).1 = (MemoryLedger.handle (fun _ => db.registered) o db.asMemory).1 := by
  cases o with
  | historyCut => exact ⟨rfl, rfl, congrArg Except.ok (historyCut_asMemory hc).symm⟩
  | registered kind name cut => exact ⟨rfl, rfl, rfl⟩
  | hasObject k =>
    refine ⟨rfl, rfl, congrArg Except.ok ?_⟩
    rw [getObject, Option.isSome_map]
    rfl
  | hasAct k =>
    refine ⟨rfl, rfl, congrArg Except.ok ?_⟩
    rw [get?_asMemory hc]
  | objectCanon k =>
    refine ⟨rfl, rfl, congrArg Except.ok ?_⟩
    rw [getObject, Option.map_map]
    rfl
  | getAct k => exact ⟨rfl, rfl, congrArg Except.ok (get?_asMemory hc).symm⟩
  | getActsForCommand k => exact ⟨rfl, rfl, (getActsForCommand_asMemory hc).symm⟩
  | _ => exact absurd ho id

/-- **The gate, up to its writes, runs over the database as over the ledger in memory.** -/
theorem run_head (hc : Constraints db) :
    (CommitGate.head P c).run (handle P) db
      = (((CommitGate.head P c).run (MemoryLedger.handle fun _ => db.registered) db.asMemory).1,
          db) := by
  refine Prod.ext ?_ ?_
  · exact CommitGate.only_head.run_congr fun o ho => handle_gateRead hc ho
  · exact (CommitGate.only_head.mono fun _ => LedgerOp.IsGateRead.isRead).run_state
      (fun o ho s => handle_isRead ho s) db

/-! ### What the database asks of an Act -/

/-- **What the database asks of an Act beyond the gate**: that its texts, hashes and arrays
are well formed, that the Identity and every Act it names are known, and that its types are
registered by name and its Rules by hash. -/
structure Admits (db : Postgres) (act : Act) (canon : Bytes) (commandType : String) : Prop where
  textual : act.claimedWhen.all isText = true
  hashes : isHash act.hash ∧ isHash act.commandHash ∧ isHash act.identityHash ∧
    isHash act.contextHash ∧ isHash act.payloadHash
  canon : canon ≠ []
  arrays : arraysValid act = true
  identity : db.identities.get? act.identityHash ≠ none
  registryCut : ∀ h ∈ act.registryCut, db.HasAct h
  authChain : ∀ h ∈ act.authChain, db.HasAct h
  commandTyped : db.registeredName "command_type" commandType act.registryCut = true
  actTyped : db.registeredName "act_type" act.actType act.registryCut = true
  rules : ∀ h ∈ act.ruleHashes, ∃ r ∈ db.registry,
    r.hash = h ∧ r.kind = "rule" ∧ r.bornAt ∈ act.registryCut
  commandType : commandType ≠ ""

section Writes

variable {act r : Act} {canon : Bytes} {kind commandType : String} {t : Postgres}

/-- The database with other objects. -/
def withObjects (db : Postgres) (objects : Dict Hash (Bytes × String)) : Postgres :=
  { db with objects := objects }

@[simp] theorem objects_withObjects {objects : Dict Hash (Bytes × String)} :
    (db.withObjects objects).objects = objects := rfl

/-- What the database asks of an Act does not depend on its objects. -/
theorem admits_withObjects {objects : Dict Hash (Bytes × String)} :
    (db.withObjects objects).Admits act canon commandType ↔ db.Admits act canon commandType :=
  ⟨fun h => ⟨h.textual, h.hashes, h.canon, h.arrays, h.identity, h.registryCut, h.authChain,
      h.commandTyped, h.actTyped, h.rules, h.commandType⟩,
    fun h => ⟨h.textual, h.hashes, h.canon, h.arrays, h.identity, h.registryCut, h.authChain,
      h.commandTyped, h.actTyped, h.rules, h.commandType⟩⟩

/-- **When the database stores an object**: when its hash stands for nothing else, and is
well formed if it stands for nothing yet. -/
theorem putObject_ok_iff : db.putObject h canon kind = .ok t ↔
    ¬db.objects.Clashes h (canon, kind) ∧ (db.objects.get? h = none → isHash h = true) ∧
      t = db.withObjects (db.objects.set h (canon, kind)) := by
  rw [putObject, Dict.not_clashes_iff]
  rcases hfound : db.objects.get? h with _ | found
  · by_cases hhash : isHash h = true
    · simp [hhash, withObjects, eq_comm]
    · simp [hhash]
  · by_cases hsame : found = (canon, kind)
    · rw [hsame] at hfound
      rw [hsame, Dict.set_eq_self hfound]
      simp only [ne_eq, not_true_eq_false, if_false, Except.ok.injEq, reduceCtorEq, or_true,
        false_implies, true_and]
      exact eq_comm
    · simp [hsame]

/-- **When the database stores the object of an Act.** -/
theorem storeAct_ok_iff : db.storeAct act canon = .ok t ↔
    ¬db.objects.Clashes act.hash (canon, "act") ∧
      t = db.withObjects (db.objects.set act.hash (canon, "act")) := by
  rw [storeAct, Dict.not_clashes_iff]
  rcases hfound : db.objects.get? act.hash with _ | found
  · simp [withObjects, eq_comm]
  · by_cases hsame : found = (canon, "act")
    · rw [hsame] at hfound
      rw [hsame, Dict.set_eq_self hfound]
      simp only [ne_eq, not_true_eq_false, if_false, Except.ok.injEq, reduceCtorEq, or_true,
        true_and]
      exact eq_comm
    · simp [hsame]

theorem not_exists_and_not {α : Type} {p q : α → Prop} :
    (¬∃ x, p x ∧ ¬q x) ↔ ∀ x, p x → q x := by
  simp only [not_exists, not_and, not_not]

/-- **What the gate has checked of an Act**, as the database sees it. -/
structure Passed (db : Postgres) (act : Act) : Prop where
  ruled : act.ruleHashes ≠ []
  cut : act.decisionCut = db.historyCut
  payload : db.objects.get? act.payloadHash ≠ none
  parents : ∀ p ∈ act.parents, db.HasAct p
  fresh : ¬db.HasAct act.hash
  unsettled : ¬(act.IsConsequential ∧
    ∃ b ∈ db.acts, b.IsConsequential ∧ b.commandHash = act.commandHash)

namespace Passed

variable (hpassed : db.Passed act) (hc : Constraints db)

include hpassed

theorem not_own_parent : act.hash ∉ act.parents :=
  fun hmem => hpassed.fresh (hpassed.parents _ hmem)

include hc in
/-- The cut has as many members as there are Acts, and all of them. -/
theorem not_advanced :
    ¬(db.acts.length ≠ act.decisionCut.card ∨ ∃ a ∈ db.acts, a.hash ∉ act.decisionCut) := by
  rintro (hcard | ⟨a, ha, hout⟩)
  · rw [hpassed.cut, historyCut, List.toFinset_card_of_nodup hc.actsHash, List.length_map] at hcard
    exact hcard rfl
  · rw [hpassed.cut] at hout
    exact hout (mem_historyCut.mpr ⟨a, ha, rfl⟩)

include hc in
/-- **What the checks before the writes come to** for an Act the gate has checked. -/
theorem checkCommit_ok_iff (hcontext : db.objects.get? act.contextHash ≠ none) {x : Unit} :
    db.checkCommit act canon commandType = .ok x ↔
      (isHash act.hash ∧ isHash act.commandHash ∧ isHash act.identityHash ∧
        isHash act.contextHash ∧ isHash act.payloadHash) ∧ canon ≠ [] ∧ arraysValid act = true ∧
      db.identities.get? act.identityHash ≠ none ∧ (∀ h ∈ act.registryCut, db.HasAct h) ∧
      (∀ h ∈ act.authChain, db.HasAct h) ∧
      db.registeredName "command_type" commandType act.registryCut = true ∧
      db.registeredName "act_type" act.actType act.registryCut = true ∧
      ∀ h ∈ act.ruleHashes, ∃ r ∈ db.registry,
        r.hash = h ∧ r.kind = "rule" ∧ r.bornAt ∈ act.registryCut := by
  have horphan : ¬∃ p ∈ act.parents, ¬db.HasAct p := not_exists_and_not.mpr hpassed.parents
  simp only [checkCommit, refuse_bind_ok, refuse_ok, hpassed.ruled, hpassed.not_own_parent,
    horphan, hpassed.not_advanced hc, hcontext, hpassed.payload, not_false_eq_true, true_and,
    not_not, Bool.not_eq_false, not_exists_and_not, ne_eq]

/-- **What the trigger comes to** for such an Act. -/
theorem validateActInsert_ok_iff {x : Unit} :
    db.validateActInsert act commandType = .ok x ↔ commandType ≠ "" ∧ arraysValid act = true ∧
      (∀ h ∈ act.registryCut, db.HasAct h) ∧ ∀ h ∈ act.authChain, db.HasAct h := by
  have horphan : ¬∃ p ∈ act.parents, ¬db.HasAct p := not_exists_and_not.mpr hpassed.parents
  have hknown : ¬∃ h ∈ act.decisionCut, ¬db.HasAct h := by
    rw [not_exists_and_not, hpassed.cut]
    exact fun x => mem_historyCut.mp
  simp only [validateActInsert, refuse_bind_ok, refuse_ok, hpassed.not_own_parent, horphan, hknown,
    not_false_eq_true, true_and, Bool.not_eq_false, not_exists_and_not, ne_eq]

omit hpassed in
theorem withObjects (hpassed : db.Passed act) {objects : Dict Hash (Bytes × String)}
    (hle : db.objects ≤ objects) : (db.withObjects objects).Passed act where
  ruled := hpassed.ruled
  cut := hpassed.cut
  payload := by
    obtain ⟨found, hfound⟩ := Option.ne_none_iff_exists'.mp hpassed.payload
    have hlater : objects.get? act.payloadHash = some found := hle _ _ hfound
    change objects.get? act.payloadHash ≠ none
    rw [hlater]
    exact Option.some_ne_none _
  parents := hpassed.parents
  fresh := hpassed.fresh
  unsettled := hpassed.unsettled

include hc in
/-- **When the database inserts an Act the gate has checked**: when it admits it, and its
hash stands for nothing else. -/
theorem commitAct_ok_iff (hcontext : db.objects.get? act.contextHash ≠ none) :
    db.commitAct act canon commandType = .ok (r, t) ↔ r = act ∧
      db.Admits act canon commandType ∧ ¬db.objects.Clashes act.hash (canon, "act") ∧
      t = { db with
        objects := db.objects.set act.hash (canon, "act"), acts := db.acts ++ [act] } := by
  rw [commitAct, getAct_eq_none_iff.mpr hpassed.fresh]
  simp only [bind_ok, refuse_ok, exists_const, hpassed.checkCommit_ok_iff hc hcontext,
    storeAct_ok_iff, Bool.not_eq_false, insertAct]
  constructor
  · rintro ⟨htextual, ⟨hhashes, hcanon, harrays, hidentity, hregistry, hchain, hcommand, hact,
      hrules⟩, stored, ⟨hclash, rfl⟩, inserted, ⟨_, hvalid, -, hinserted⟩, hreturn⟩
    have hstored : (db.withObjects (db.objects.set act.hash (canon, "act"))).Passed act :=
      hpassed.withObjects (Dict.le_set_of_not_clashes hclash)
    have htyped := (hstored.validateActInsert_ok_iff.mp hvalid).1
    cases hinserted
    cases hreturn
    exact ⟨rfl, ⟨htextual, hhashes, hcanon, harrays, hidentity, hregistry, hchain, hcommand, hact,
      hrules, htyped⟩, hclash, rfl⟩
  · rintro ⟨rfl, h, hclash, rfl⟩
    have hstored : (db.withObjects (db.objects.set r.hash (canon, "act"))).Passed r :=
      hpassed.withObjects (Dict.le_set_of_not_clashes hclash)
    exact ⟨h.textual, ⟨h.hashes, h.canon, h.arrays, h.identity, h.registryCut, h.authChain,
      h.commandTyped, h.actTyped, h.rules⟩, _, ⟨hclash, rfl⟩, _,
      ⟨(), hstored.validateActInsert_ok_iff.mpr ⟨h.commandType, h.arrays, h.registryCut,
        h.authChain⟩, hstored.unsettled, rfl⟩, rfl⟩

end Passed

theorem run_putObject_ok_iff {x : Unit} :
    (LedgerM.putObject h canon kind).run (handle P) db = (.ok x, t) ↔
      db.putObject h canon kind = .ok t := by
  have hcall : (LedgerM.putObject h canon kind).run (handle P) db
      = db.execute (db.putObject h canon kind) := run_call
  rw [hcall]
  rcases db.putObject h canon kind with e | u
  · simp [execute]
  · simp [execute]

theorem run_commitAct_ok_iff :
    (LedgerM.commitAct act canon commandType).run (handle P) db = (.ok r, t) ↔
      db.commitAct act canon commandType = .ok (r, t) := by
  have hcall : (LedgerM.commitAct act canon commandType).run (handle P) db
      = db.transaction (db.commitAct act canon commandType) := run_call
  rw [hcall]
  rcases db.commitAct act canon commandType with e | ⟨r', u⟩
  · simp [transaction]
  · simp [transaction]

/-- What the gate has checked over the ledger in memory, the database sees. -/
theorem passed_of_admission (hc : Constraints db)
    (hadm : Admission P (fun _ => db.registered) db.asMemory c a) : db.Passed a where
  ruled := by
    rw [hadm.ruleHashes]
    exact hadm.ruled
  cut := by rw [hadm.decisionCut, historyCut_asMemory hc]
  payload := by
    rw [hadm.payloadHash]
    exact Option.isSome_iff_ne_none.mp hadm.payload
  parents := by
    intro p hp
    rw [hadm.act_parents] at hp
    have hstored := hadm.parents p hp
    rw [get?_asMemory hc] at hstored
    obtain ⟨b, hb⟩ := Option.isSome_iff_exists.mp hstored
    exact ⟨b, getAct_eq_some hb⟩
  fresh := by
    rw [← getAct_eq_none_iff, ← get?_asMemory hc]
    exact hadm.fresh
  unsettled := by
    rintro ⟨hcons, b, hb, hbcons, hcommand⟩
    rw [Act.IsConsequential, hadm.actType] at hcons
    obtain ⟨owned, howned, hstages⟩ := hadm.unsettled hcons
    rw [getActsForCommand_asMemory hc, Except.ok.injEq] at howned
    rw [← howned] at hstages
    exact hbcons (hstages b (mem_getActsForCommand.mpr ⟨hb, hcommand⟩))

/-- **When the writes of the gate succeed over the database**: when none is refused and the
database admits the Act. -/
theorem run_write_ok_iff (hc : Constraints db)
    (hadm : Admission P (fun _ => db.registered) db.asMemory c a) :
    (CommitGate.write P c (CommitGate.actValue c a.commandHash a.contextHash) a.hash a.commandHash
        a.contextHash).run (handle P) db = (.ok r, t) ↔ r = a ∧
      db.Admits a (canonBytes P (CommitGate.actValue c a.commandHash a.contextHash))
        c.command.commandType ∧ ¬db.objects.Refused (CommitGate.writes P c a) ∧
      t = { db with objects := (db.objects.putAll (CommitGate.writes P c a)).2,
                    acts := db.acts ++ [a] } := by
  have hpassed := passed_of_admission hc hadm
  rw [CommitGate.write_eq hadm]
  simp only [run_bind_ok, run_putObject_ok_iff, putObject_ok_iff, run_mapError_ok,
    run_commitAct_ok_iff, CommitGate.writes, Dict.Refused, Dict.putAll, or_false, not_or]
  -- Before the Act is inserted, the Command and the Context are stored.
  have hinserted : ∀ {d d' : Dict Hash (Bytes × String)} {canon : Bytes} {v : Bytes × String},
      db.objects ≤ d → ¬d.Clashes a.contextHash v → d' = d.set a.contextHash v →
      (((db.withObjects d').commitAct a canon c.command.commandType = .ok (r, t)) ↔ r = a ∧
        db.Admits a canon c.command.commandType ∧ ¬d'.Clashes a.hash (canon, "act") ∧
        t = { db with objects := d'.set a.hash (canon, "act"), acts := db.acts ++ [a] }) := by
    rintro d d' canon v hd hclash rfl
    have hgrown := hd.trans (Dict.le_set_of_not_clashes hclash)
    have hcontext : (db.withObjects (d.set a.contextHash v)).objects.get? a.contextHash ≠ none := by
      change (d.set a.contextHash v).get? a.contextHash ≠ none
      rw [Dict.get?_set_self]
      exact Option.some_ne_none v
    have hconstraints : Constraints (db.withObjects (d.set a.contextHash v)) := by
      refine ⟨hc.actsHash, hc.oneConsequence, fun b hb => ?_, hc.activeBinding⟩
      obtain ⟨found, hfound⟩ := hc.actsPayload b hb
      exact ⟨found, hgrown _ _ hfound⟩
    rw [(hpassed.withObjects hgrown).commitAct_ok_iff hconstraints hcontext, admits_withObjects]
    rfl
  constructor
  · rintro ⟨_, _, ⟨hcommand, -, rfl⟩, _, _, ⟨hcontext, -, rfl⟩, hrun⟩
    rw [objects_withObjects] at hcontext
    have hstored := Dict.le_set_of_not_clashes hcommand
    obtain ⟨hr, hadmits, hact, ht⟩ := (hinserted hstored hcontext rfl).mp hrun
    refine ⟨hr, hadmits, ⟨hcommand, hcontext, hact⟩, ?_⟩
    rw [if_neg hcommand, if_neg hcontext, if_neg hact]
    exact ht
  · rintro ⟨hr, hadmits, ⟨hcommand, hcontext, hact⟩, ht⟩
    rw [if_neg hcommand, if_neg hcontext, if_neg hact] at ht
    have hstored := Dict.le_set_of_not_clashes hcommand
    exact ⟨(), _, ⟨hcommand, fun _ => hadmits.hashes.2.1, rfl⟩, (), _,
      ⟨hcontext, fun _ => hadmits.hashes.2.2.2.1, rfl⟩,
      (hinserted hstored hcontext rfl).mpr ⟨hr, hadmits, hact, ht⟩⟩

/-! ### A whole call over the database -/

/-- **A replay is answered with the Act that stands.** -/
theorem run_commit_of_replays (hc : Constraints db)
    (h : CommitGate.Replays P db.asMemory c a) :
    (CommitGate.commit P c).run (handle P) db = (.ok a, db) := by
  have hhead : (CommitGate.head P c).run (handle P) db = (.ok (.inl a), db) := by
    rw [run_head hc, CommitGate.run_head_inl.mpr ⟨rfl, h⟩]
  rw [CommitGate.commit_eq, run_bind_of_eq hhead]
  rfl

/-- **An admission is the writes of the gate.** -/
theorem run_commit_of_admission (hc : Constraints db)
    (h : Admission P (fun _ => db.registered) db.asMemory c a) :
    (CommitGate.commit P c).run (handle P) db
      = (CommitGate.write P c (CommitGate.actValue c a.commandHash a.contextHash) a.hash
          a.commandHash a.contextHash).run (handle P) db := by
  have hadm : Admission P (fun _ => db.registered) db.asMemory c
      (CommitGate.actOf c a.hash a.commandHash a.contextHash) := by
    rw [← h.act_eq]
    exact h
  have hhead : (CommitGate.head P c).run (handle P) db = (.ok (.inr
      (CommitGate.actValue c a.commandHash a.contextHash, a.hash, a.commandHash,
        a.contextHash)), db) := by
    rw [run_head hc, CommitGate.run_head_inr.mpr ⟨rfl, rfl, hadm⟩]
  rw [CommitGate.commit_eq, run_bind_of_eq hhead]
  rfl

/-- **A call that is neither raises**, and writes nothing. -/
theorem run_commit_refused (hc : Constraints db)
    (hreplay : ∀ a, ¬CommitGate.Replays P db.asMemory c a)
    (hadm : ∀ a, ¬Admission P (fun _ => db.registered) db.asMemory c a) :
    ∃ e, (CommitGate.commit P c).run (handle P) db = (.error e, db) := by
  rw [CommitGate.commit_eq, run_bind, run_head hc]
  rcases hhead : (CommitGate.head P c).run (MemoryLedger.handle fun _ => db.registered)
    db.asMemory with ⟨e | b | found, t⟩
  · exact ⟨e, rfl⟩
  · exact absurd (CommitGate.run_head_inl.mp hhead).2 (hreplay b)
  · exact absurd (CommitGate.run_head_inr.mp hhead).2.2 (hadm _)

/-! ### What a failed commit leaves in the database -/

/-- **No Act and no object of an Act was added or lost.** -/
structure ActsKept (db t : Postgres) : Prop where
  acts : t.acts = db.acts
  objects : db.objects ≤ t.objects
  actObjects : ∀ k canon, t.objects.get? k = some (canon, "act") →
    db.objects.get? k = some (canon, "act")

theorem ActsKept.refl (db : Postgres) : ActsKept db db := ⟨rfl, le_refl _, fun _ _ => id⟩

theorem ActsKept.trans {u : Postgres} (h : ActsKept db t) (h' : ActsKept t u) : ActsKept db u :=
  ⟨h'.acts.trans h.acts, h.objects.trans h'.objects,
    fun k canon hk => h.actObjects k canon (h'.actObjects k canon hk)⟩

/-- Storing an object of another kind. -/
theorem actsKept_putObject (hkind : kind ≠ "act") (db : Postgres) :
    ActsKept db (handle P (.putObject h canon kind) db).2 := by
  rcases hput : db.putObject h canon kind with e | u
  · rw [handle, hput]
    exact ActsKept.refl db
  · rw [handle, hput]
    obtain ⟨hclash, -, rfl⟩ := putObject_ok_iff.mp hput
    refine ⟨rfl, Dict.le_set_of_not_clashes hclash, fun k canon' hk => ?_⟩
    have hset : (db.objects.set h (canon, kind)).get? k = some (canon', "act") := hk
    rcases Dict.get?_set_cases hset with ⟨-, hnew⟩ | ⟨-, hold⟩
    · exact absurd (Prod.mk.inj hnew).2.symm hkind
    · exact hold

/-- An operation that stores an object of another kind. -/
def IsOtherPut : LedgerOp → Prop
  | .putObject _ _ kind => kind ≠ "act"
  | _ => False

/-- **A commit that raises has kept the Acts and their objects.** -/
theorem raisesKeep_write {value : CanonValue} {actHash commandHash contextHash : Hash} :
    RaisesKeep (handle P) ActsKept
      (CommitGate.write P c value actHash commandHash contextHash) := by
  have hput : ∀ o, IsOtherPut o → ∀ db, ActsKept db (handle P o db).2 := by
    intro o ho db
    cases o with
    | putObject h canon kind => exact actsKept_putObject ho db
    | _ => exact absurd ho id
  have keeps : ∀ {α β : Type} {p : LedgerM α} {f : α → LedgerM β}, p.Only IsOtherPut →
      (∀ a, RaisesKeep (handle P) ActsKept (f a)) → RaisesKeep (handle P) ActsKept (p >>= f) :=
    fun hp hf => RaisesKeep.bind ActsKept.refl ActsKept.trans hput hp hf
  have hcommand : "command" ≠ "act" := by decide
  have hcontext : "context" ≠ "act" := by decide
  refine keeps (.ofExcept _) fun _ => keeps (.call hcommand) fun _ => ?_
  refine keeps (.ofExcept _) fun _ => keeps (.call hcontext) fun _ => ?_
  -- Whatever `commit_act` raises, its transaction is rolled back.
  refine RaisesKeep.mapError (keeps (.ofExcept _) fun canon => ?_) _
  intro db e t hrun
  have hcall : (LedgerM.commitAct (CommitGate.actOf c actHash commandHash contextHash) canon
      c.command.commandType).run (handle P) db = db.transaction (db.commitAct _ _ _) := run_call
  rw [hcall] at hrun
  rcases hcommit : db.commitAct (CommitGate.actOf c actHash commandHash contextHash) canon
      c.command.commandType with e' | ⟨r, u⟩
  · rw [hcommit] at hrun
    cases hrun
    exact ActsKept.refl _
  · rw [hcommit] at hrun
    cases hrun

end Writes

end Postgres

/-! ### Ledgers the gate cannot tell apart -/

/-- **Two ledgers in memory answer the gate alike**, the Acts of a Command in any order. -/
structure Alike (known known' : MemoryLedger → String → String → Cut → Bool)
    (s s' : MemoryLedger) : Prop where
  acts : ∀ k, s'.acts.get? k = s.acts.get? k
  objects : ∀ k, s'.objects.get? k = s.objects.get? k
  owned : ∀ h, ∃ owned owned', s.getActsForCommand h = .ok owned ∧
    s'.getActsForCommand h = .ok owned' ∧ ∀ a, a ∈ owned' ↔ a ∈ owned
  registered : ∀ kind name cut, known' s' kind name cut = known s kind name cut

namespace Alike

variable {P : Primitives} {known known' : MemoryLedger → String → String → Cut → Bool}
  {s s' : MemoryLedger} {c : Submission} {a : Act}

theorem symm (h : Alike known known' s s') : Alike known' known s' s := by
  refine ⟨fun k => (h.acts k).symm, fun k => (h.objects k).symm, fun x => ?_,
    fun kind name cut => (h.registered kind name cut).symm⟩
  obtain ⟨owned, owned', howned, howned', hmem⟩ := h.owned x
  exact ⟨owned', owned, howned', howned, fun a => (hmem a).symm⟩

/-- What holds of all Acts of a Command, or of one of them, holds in both. -/
theorem getActsForCommand (h : Alike known known' s s') {x : Hash} {p : List Act → Prop}
    (hp : ∀ l l' : List Act, (∀ a, a ∈ l' ↔ a ∈ l) → p l → p l')
    (hs : ∃ owned, s.getActsForCommand x = .ok owned ∧ p owned) :
    ∃ owned, s'.getActsForCommand x = .ok owned ∧ p owned := by
  obtain ⟨owned, howned, hown⟩ := hs
  obtain ⟨l, l', hl, hl', hmem⟩ := h.owned x
  rw [hl, Except.ok.injEq] at howned
  exact ⟨l', hl', hp l l' hmem (howned ▸ hown)⟩

theorem linked_iff (h : Alike known known' s s') {chain : List Hash} :
    Linked s'.toMemoryStore chain a ↔ Linked s.toMemoryStore chain a := by
  rw [Linked, Linked]
  simp only [h.acts]

theorem reviewTarget (h : Alike known known' s s') (payloadHash : Hash) :
    s'.reviewTarget P payloadHash = s.reviewTarget P payloadHash := by
  rw [MemoryStore.reviewTarget, MemoryStore.objectCanon, h.objects]
  rfl

theorem historyCut (h : Alike known known' s s') : s'.historyCut = s.historyCut := by
  ext k
  rw [MemoryStore.mem_historyCut, MemoryStore.mem_historyCut]
  simp only [h.acts]

theorem structural (h : Alike known known' s s') {command : Command} {commandHash : Hash}
    {actType : String} {chain : List Hash}
    (hs : StructuralProof P s.toMemoryStore command commandHash actType chain) :
    StructuralProof P s'.toMemoryStore command commandHash actType chain := by
  constructor
  · intro htype
    rw [h.reviewTarget]
    exact hs.reviewed htype
  · intro htype
    simp only [h.linked_iff, h.reviewTarget]
    exact hs.resolved htype
  · intro hcons
    simp only [h.linked_iff]
    refine h.getActsForCommand (fun l l' hmem hp hq => hp ?_) (hs.consequential hcons)
    obtain ⟨q, hq, htype⟩ := hq
    exact ⟨q, (hmem q).mp hq, htype⟩

/-- **What one ledger admits, the other admits.** -/
theorem admission (h : Alike known known' s s') (hs : Admission P known s c a) :
    Admission P known' s' c a where
  signer := hs.signer
  verified := hs.verified
  commandHash := hs.commandHash
  contextHash := hs.contextHash
  hash := hs.hash
  act_eq := hs.act_eq
  fresh := by rw [h.acts, hs.fresh]
  permitted := hs.permitted
  unsettled := fun hcons => h.getActsForCommand
    (fun l l' hmem hp b hb => hp b ((hmem b).mp hb)) (hs.unsettled hcons)
  structural := h.structural hs.structural
  cut := by rw [hs.cut, h.historyCut]
  commandTyped := by rw [h.registered]; exact hs.commandTyped
  actTyped := by rw [h.registered]; exact hs.actTyped
  ruled := hs.ruled
  rulesKnown := by simp only [h.registered]; exact hs.rulesKnown
  keysKnown := by simp only [h.registered]; exact hs.keysKnown
  payload := by rw [h.objects]; exact hs.payload
  parents := by simp only [h.acts]; exact hs.parents

/-- **What one ledger replays, the other replays.** -/
theorem replays (h : Alike known known' s s') (hs : CommitGate.Replays P s c a) :
    CommitGate.Replays P s' c a := by
  obtain ⟨k, hocc, hget⟩ := hs.held
  exact ⟨hs.signer, hs.verified, k, hocc, by rw [h.acts, hget]⟩

end Alike

end PowerfarmKernel
