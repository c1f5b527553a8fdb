import Mathlib.Data.List.Sort
import PowerfarmKernel.Ledger.Agreement
import PowerfarmKernel.Ledger.Bindings
import PowerfarmKernel.Ledger.Coherence
import PowerfarmKernel.Ledger.Steady

/-!
# A ledger in memory that follows the database

The two adapters answer the same protocol. `PowerfarmKernel.Mirrored` relates a database to a
ledger in memory that holds the same: the Acts in the same order, the objects, the registry with
its definitions, the Identities and the bindings. Whatever the database returns from an operation,
such a ledger returns as well, and holds the same again (`PowerfarmKernel.Mirrored.handle`). Links
are left out: the two adapters differ in them. What the database refuses the ledger may accept.
-/

namespace PowerfarmKernel

/-- The row of a registered name. -/
def RegistryEntry.row (e : RegistryEntry) : RegistryRow :=
  ⟨e.hash, e.kind, e.name, e.version, e.bornAt, e.constitutional⟩

/-- An operation that links no principal. -/
def LedgerOp.LinksNone : LedgerOp → Prop
  | .linkPrincipal _ _ _ _ => False
  | _ => True

/-- **A ledger in memory holds what a database holds.** -/
structure Mirrored (P : Primitives) (db : Postgres) (m : MemoryLedger) : Prop where
  coherent : m.toMemoryStore.Coherent
  acts : m.acts.values = db.acts
  objects : ∀ h, m.objects.get? h = db.objects.get? h
  registry : db.registry = m.registryMetadata.values.map RegistryEntry.row
  definitions : ∀ e ∈ m.registryMetadata.values, db.registryEntry P e.row = .ok (some e)
  /-- The key an Identity has in memory is the one it has at every cut at which it has one. -/
  identities : ∀ h cut found, db.getIdentity h cut = .ok found → m.identities.get? h = found
  bindings : ∀ issuer subject, m.resolvePrincipal issuer subject = db.resolved issuer subject

namespace Mirrored

variable {P : Primitives} {db t : Postgres} {m m' : MemoryLedger} {h : Hash} {act r : Act}
  {canon : Bytes} {kind commandType : String} {cut : Cut}

/-! ### Reads -/

theorem entries (hm : Mirrored P db m) : m.acts.entries = db.acts.map fun a => (a.hash, a) := by
  rw [← hm.acts, Dict.values, List.map_map]
  refine (List.map_id _).symm.trans (List.map_congr_left ?_)
  rintro ⟨k, a⟩ hmem
  exact Prod.ext (hm.coherent.keyed k a (Dict.get?_eq_some_iff.mpr hmem)).symm rfl

theorem get?_acts (hm : Mirrored P db m) : m.acts.get? h = db.getAct h := by
  rw [Dict.get?, hm.entries, List.find?_map, Option.map_map, Postgres.getAct]
  exact congrFun Option.map_id _

theorem actsHash (hm : Mirrored P db m) : (db.acts.map Act.hash).Nodup := by
  have hkeys := m.acts.nodup
  rwa [hm.entries, List.map_map] at hkeys

/-- History is the same. -/
theorem historyCut (hm : Mirrored P db m) : m.historyCut = db.historyCut := by
  rw [MemoryStore.historyCut, Dict.keySet, Dict.keys, hm.entries, List.map_map]
  rfl

theorem registered (hm : Mirrored P db m) {name : String} :
    m.registered kind name cut = db.registered kind name cut := by
  rw [MemoryLedger.registered, Postgres.registered, hm.registry, List.any_map]
  rfl

/-- **The Acts of a Command** are the same, in the same order. -/
theorem getActsForCommand (hm : Mirrored P db m) :
    m.getActsForCommand h = .ok (db.getActsForCommand h) := by
  rw [hm.coherent.getActsForCommand, MemoryStore.actsOf, hm.acts, Postgres.getActsForCommand]

theorem getObject (hm : Mirrored P db m) : m.getObject h = db.getObject h := by
  rw [MemoryLedger.getObject, Postgres.getObject, hm.objects]

theorem isClosedCut (hm : Mirrored P db m) : m.isClosedCut cut = db.isClosedCut cut := by
  rw [Bool.eq_iff_iff, MemoryLedger.isClosedCut_iff, Postgres.isClosedCut_iff hm.actsHash]
  constructor
  · refine fun hclosed => ⟨fun x hx => ?_, fun a ha hcut => ?_⟩
    · obtain ⟨act, hget, -⟩ := hclosed x hx
      exact ⟨act, Postgres.getAct_eq_some (hm.get?_acts ▸ hget)⟩
    · obtain ⟨act, hget, hparents⟩ := hclosed a.hash hcut
      obtain ⟨hact, hhash⟩ := Postgres.getAct_eq_some (hm.get?_acts ▸ hget)
      rwa [List.inj_on_of_nodup_map hm.actsHash hact ha hhash] at hparents
  · rintro ⟨hknown, hclosed⟩ x hx
    obtain ⟨act, hact, rfl⟩ := hknown x hx
    have hget : m.acts.get? act.hash = some act := by
      rw [Dict.get?_eq_some_iff, hm.entries]
      exact List.mem_map_of_mem hact
    exact ⟨act, hget, hclosed act hact hx⟩

/-- **The registry is listed in the same order.** -/
theorem registryEntries (hm : Mirrored P db m) {kind : Option String} :
    db.registryEntries P kind cut = .ok (m.registryEntries kind cut) := by
  have hrows : ((db.registry.filter fun r =>
      r.bornAt ∈ cut ∧ (kind = none ∨ kind = some r.kind)).insertionSort
        fun a b => Postgres.rowLe a b = true) =
      (m.registryEntries kind cut).map RegistryEntry.row := by
    rw [MemoryLedger.registryEntries, hm.registry, List.filter_map]
    exact (List.map_insertionSort (fun a b => MemoryLedger.entryLe a b = true)
      (fun a b => Postgres.rowLe a b = true) RegistryEntry.row _ fun _ _ _ _ => Iff.rfl).symm
  have hentries : ((m.registryEntries kind cut).map RegistryEntry.row).mapM (db.registryEntry P) =
      .ok ((m.registryEntries kind cut).map some) := by
    rw [Results.mapM_ok_iff, List.forall₂_map_left_iff, List.forall₂_map_right_iff,
      List.forall₂_same]
    intro e he
    rw [MemoryLedger.registryEntries, List.mem_insertionSort] at he
    exact hm.definitions e (List.mem_filter.mp he).1
  rw [Postgres.registryEntries, hrows, hentries]
  dsimp only
  rw [List.reduceOption, List.filterMap_map]
  exact congrArg Except.ok List.filterMap_some

/-! ### Writes -/

theorem clashes_iff (hm : Mirrored P db m) {v : Bytes × String} :
    m.objects.Clashes h v ↔ db.objects.Clashes h v := by
  rw [Dict.Clashes, hm.objects, Dict.Clashes]

/-- **What no method changes** is still the same when the Acts, the objects and the bindings
are. -/
theorem later (hm : Mirrored P db m) (hst : Postgres.Steady db t)
    (hmetadata : m'.registryMetadata = m.registryMetadata)
    (hidentities : m'.identities = m.identities) (hcoherent : m'.toMemoryStore.Coherent)
    (hacts : m'.acts.values = t.acts) (hobjects : ∀ h, m'.objects.get? h = t.objects.get? h)
    (hbindings : ∀ issuer subject,
      m'.resolvePrincipal issuer subject = t.resolved issuer subject) :
    Mirrored P t m' where
  coherent := hcoherent
  acts := hacts
  objects := hobjects
  registry := by rw [hst.registry, hmetadata, hm.registry]
  definitions e he := by
    have hentry := hm.definitions e (hmetadata ▸ he)
    rw [Postgres.registryEntry] at hentry ⊢
    rcases hfound : db.objects.get? e.row.hash with _ | found
    · rw [hfound] at hentry
      cases hentry
    · rw [hfound] at hentry
      rwa [Dict.get?_of_le hst.objects hfound]
  identities h cut found hfound := by
    rw [hidentities]
    refine hm.identities h cut found ?_
    rwa [Postgres.getIdentity, Postgres.identityKeysAtCut, hst.identities, hst.identityKeys]
      at hfound
  bindings := hbindings

/-- **An object is stored** in both. -/
theorem putObject (hm : Mirrored P db m) (hput : db.putObject h canon kind = .ok t) :
    ∃ m', memoryLedger (.putObject h canon kind) m = (.ok (), m') ∧ Mirrored P t m' := by
  have hst : Postgres.Steady db t := by
    have hsteady := Postgres.steady_handle P (.putObject h canon kind) db
    rwa [Postgres.handle, hput] at hsteady
  obtain ⟨hfree, -, rfl⟩ := Postgres.putObject_ok_iff.mp hput
  have hstored : (LedgerM.putObject h canon kind).run memoryLedger m =
      (.ok (), m.withObject h canon kind) :=
    run_putObject_of_not_clashes (mt hm.clashes_iff.mp hfree)
  refine ⟨_, Prog.run_call.symm.trans hstored, hm.later hst rfl rfl
    (hm.coherent.of_eq rfl rfl) hm.acts (fun k => ?_) hm.bindings⟩
  change (m.objects.set h (canon, kind)).get? k = (db.objects.set h (canon, kind)).get? k
  rw [Dict.get?_set, Dict.get?_set, hm.objects]

/-- **An Act is inserted** in both, or found. -/
theorem commitAct (hm : Mirrored P db m)
    (hcommit : db.commitAct act canon commandType = .ok (r, t)) :
    ∃ m', memoryLedger (.commitAct act canon commandType) m = (.ok r, m') ∧
      Mirrored P t m' := by
  have hst : Postgres.Steady db t := by
    have hsteady := Postgres.steady_handle P (.commitAct act canon commandType) db
    rwa [Postgres.handle, hcommit] at hsteady
  rw [Postgres.commitAct] at hcommit
  rcases hget : db.getAct act.hash with _ | existing
  · rw [hget] at hcommit
    obtain ⟨-, hcommit⟩ := Postgres.refuse_bind_ok.mp hcommit
    obtain ⟨_, -, hcommit⟩ := Postgres.bind_ok.mp hcommit
    obtain ⟨stored, hstored, hcommit⟩ := Postgres.bind_ok.mp hcommit
    obtain ⟨inserted, hinserted, hcommit⟩ := Postgres.bind_ok.mp hcommit
    cases hcommit
    obtain ⟨hfree, rfl⟩ := Postgres.storeAct_ok_iff.mp hstored
    obtain ⟨-, rfl⟩ := Postgres.insertAct_ok hinserted
    have hnew : m.acts.get? act.hash = none := hm.get?_acts.trans hget
    have hplaced : (LedgerM.commitAct act canon commandType).run memoryLedger m =
        (.ok act, m.withAct act canon) :=
      run_commitAct_of_not_clashes hnew (mt hm.clashes_iff.mp hfree)
    refine ⟨_, Prog.run_call.symm.trans hplaced,
      hm.later hst rfl rfl (hm.coherent.withAct hnew canon) ?_ (fun k => ?_) hm.bindings⟩
    · change (m.acts.set act.hash act).values = db.acts ++ [act]
      rw [Dict.values_set_of_notMem (Dict.get?_eq_none_iff.mp hnew), hm.acts]
    · change (m.objects.set act.hash (canon, "act")).get? k =
        (db.objects.set act.hash (canon, "act")).get? k
      rw [Dict.get?_set, Dict.get?_set, hm.objects]
  · rw [hget] at hcommit
    cases hcommit
    refine ⟨m, ?_, hm⟩
    rw [memoryLedger, MemoryLedger.handle, MemoryStore.commitAct, hm.get?_acts, hget]
    rfl

/-- **A revocation** ends the same binding in both. -/
theorem revokePrincipal (hm : Mirrored P db m) {issuer subject : String} {unlinkedAct : Hash}
    (hrevoke : db.revokePrincipal issuer subject unlinkedAct = .ok t) :
    Mirrored P t (m.revokePrincipal issuer subject) := by
  have hst := Postgres.steady_revokePrincipal hrevoke
  rw [Postgres.revokePrincipal, Postgres.passTexts] at hrevoke
  obtain ⟨-, hrevoke⟩ := Postgres.refuse_bind_ok.mp hrevoke
  obtain ⟨-, hrevoke⟩ := Postgres.refuse_bind_ok.mp hrevoke
  cases hrevoke
  refine hm.later hst rfl rfl hm.coherent hm.acts hm.objects fun issuer' subject' => ?_
  rw [m.resolvePrincipal_revokePrincipal, hm.bindings]
  exact Postgres.resolved_ended.symm

/-- **What the database returns, the ledger returns**, and it holds the same again. -/
theorem handle (hm : Mirrored P db m) {o : LedgerOp} (ho : o.LinksNone) {a : o.Ret}
    (hanswer : Postgres.handle P o db = (.ok a, t)) :
    ∃ m', memoryLedger o m = (.ok a, m') ∧ Mirrored P t m' := by
  rw [memoryLedger]
  cases o with
  | historyCut =>
    cases hanswer
    exact ⟨m, by rw [MemoryLedger.handle, hm.historyCut], hm⟩
  | registered kind name cut =>
    cases hanswer
    exact ⟨m, by rw [MemoryLedger.handle, hm.registered], hm⟩
  | hasObject h =>
    cases hanswer
    exact ⟨m, by rw [MemoryLedger.handle, hm.objects, Postgres.getObject, Option.isSome_map], hm⟩
  | hasAct h =>
    cases hanswer
    exact ⟨m, by rw [MemoryLedger.handle, hm.get?_acts], hm⟩
  | putObject h canon kind =>
    rcases hput : db.putObject h canon kind with e | t'
    · rw [Postgres.handle, hput] at hanswer
      cases hanswer
    · rw [Postgres.handle, hput] at hanswer
      cases hanswer
      exact hm.putObject hput
  | objectCanon h =>
    cases hanswer
    exact ⟨m, by rw [MemoryLedger.handle, MemoryStore.objectCanon, hm.objects, Postgres.getObject,
      Option.map_map]; rfl, hm⟩
  | commitAct act canon commandType =>
    rcases hcommit : db.commitAct act canon commandType with e | ⟨r, t'⟩
    · rw [Postgres.handle, hcommit] at hanswer
      cases hanswer
    · rw [Postgres.handle, hcommit] at hanswer
      cases hanswer
      exact hm.commitAct hcommit
  | getAct h =>
    cases hanswer
    exact ⟨m, by rw [MemoryLedger.handle, hm.get?_acts], hm⟩
  | getActsForCommand h =>
    cases hanswer
    exact ⟨m, congrArg (·, m) hm.getActsForCommand, hm⟩
  | getObject h =>
    cases hanswer
    exact ⟨m, by rw [MemoryLedger.handle, hm.getObject], hm⟩
  | isClosedCut cut =>
    cases hanswer
    exact ⟨m, by rw [MemoryLedger.handle, hm.isClosedCut], hm⟩
  | getIdentity h cut =>
    obtain ⟨hfound, rfl⟩ := Prod.mk.injEq .. ▸ hanswer
    exact ⟨m, by rw [MemoryLedger.handle, hm.identities h cut a hfound], hm⟩
  | registryEntries kind cut =>
    rw [Postgres.handle, hm.registryEntries] at hanswer
    cases hanswer
    exact ⟨m, rfl, hm⟩
  | resolvePrincipal issuer subject =>
    obtain ⟨hfound, rfl⟩ := Prod.mk.injEq .. ▸ hanswer
    exact ⟨m, by rw [MemoryLedger.handle, hm.bindings, Postgres.resolved, hfound]; rfl, hm⟩
  | linkPrincipal issuer subject identityHash linkedAct => exact ho.elim
  | revokePrincipal issuer subject unlinkedAct =>
    rcases hrevoke : db.revokePrincipal issuer subject unlinkedAct with e | t'
    · rw [Postgres.handle, hrevoke] at hanswer
      cases hanswer
    · rw [Postgres.handle, hrevoke] at hanswer
      cases hanswer
      exact ⟨_, rfl, hm.revokePrincipal hrevoke⟩

end Mirrored

end PowerfarmKernel
