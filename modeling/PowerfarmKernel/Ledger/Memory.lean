import PowerfarmKernel.Kernel.Store
import PowerfarmKernel.Lib.Results

/-!
# The in-memory store and ledger

`MemoryStore` of `kernel/memory.py` and the `MemoryLedger` of `ledger/memory.py` that
extends it. A store holds three dictionaries that move together – the objects, the
Acts, and the index from a Command to its Acts – and a registry; the ledger adds
identities, principal bindings and the registry's metadata.

A method that raises part-way leaves behind what it had written, so a method is a
function from a state to an outcome *and* a state. `PowerfarmKernel.MemoryLedger.handle`
answers the store protocol with these methods. The ledger overrides one method of the
store, `registered`; the override is the handler's parameter, so that what is proved of
the handler holds of both classes. The ledger's own answers are
`PowerfarmKernel.memoryLedger`.
-/

namespace PowerfarmKernel

/-- A `ValueError`. -/
def valueError (text : String) : Raised := ⟨.valueError, text⟩

/-! ### The store -/

/-- The state of a `MemoryStore`. -/
structure MemoryStore where
  /-- The content-addressed objects, with their kinds. -/
  objects : Dict Hash (Bytes × String)
  /-- History. -/
  acts : Dict Hash Act
  /-- The Acts of each Command, in commit order: a trajectory index. -/
  commandIndex : Dict Hash (List Hash)
  /-- The registered names, with the Acts they were born at. -/
  registry : List (String × String × Hash)

namespace MemoryStore

variable (s : MemoryStore)

/-- Everything that happened: trivially closed under ancestry where the store is. -/
def historyCut : Cut := s.acts.keySet

/-- `MemoryStore.registered`. -/
def registered (kind name : String) (cut : Cut) : Bool :=
  s.registry.any fun e => e.1 = kind ∧ e.2.1 = name ∧ e.2.2 ∈ cut

/-- `MemoryStore.put_object`. -/
def putObject (objectHash : Hash) (canon : Bytes) (kind : String) :
    Except Raised Unit × MemoryStore :=
  let old := s.objects.get? objectHash
  if old ≠ none ∧ old ≠ some (canon, kind) then
    (.error (valueError "CAS collision"), s)
  else
    (.ok (), { s with objects := s.objects.set objectHash (canon, kind) })

/-- `MemoryStore.object_canon`. -/
def objectCanon (objectHash : Hash) : Option Bytes :=
  (s.objects.get? objectHash).map Prod.fst

/-- `MemoryStore.register`. -/
def register (kind name : String) (bornAt : Hash) : MemoryStore :=
  { s with registry := s.registry.insert (kind, name, bornAt) }

/-- `MemoryStore.append_act`: an occurrence is unique by its own hash, never by its
Command. -/
def appendAct (act : Act) : Except Raised MemoryStore :=
  if act.hash ∈ s.acts.keys then
    .error (valueError "Act occurrence must be unique")
  else
    .ok { s with
      acts := s.acts.set act.hash act
      commandIndex := s.commandIndex.set act.commandHash
        ((s.commandIndex.get? act.commandHash).getD [] ++ [act.hash]) }

/-- `MemoryStore.commit_act`, with its rollback of the object when appending raises. -/
def commitAct (act : Act) (canon : Bytes) : Except Raised Act × MemoryStore :=
  match s.acts.get? act.hash with
  | some existing => (.ok existing, s)
  | none =>
      let old := s.objects.get? act.hash
      if old ≠ none ∧ old ≠ some (canon, "act") then
        (.error (valueError "CAS collision"), s)
      else
        let stored := { s with objects := s.objects.set act.hash (canon, "act") }
        match stored.appendAct act with
        | .ok appended => (.ok act, appended)
        | .error e =>
            (.error e,
              if old = none then { stored with objects := stored.objects.pop act.hash }
              else stored)

/-- `MemoryStore.get_acts_for_command`: every Act of a Command, in commit order; an
indexed hash without an Act is a `KeyError`. -/
def getActsForCommand (commandHash : Hash) : Except Raised (List Act) :=
  ((s.commandIndex.get? commandHash).getD []).mapM fun h =>
    match s.acts.get? h with
    | some act => .ok act
    | none => .error ⟨.keyError, h⟩

/-- The store after an Act has taken its place: the object is stored, the Act appended
and indexed under its Command. -/
def withAct (act : Act) (canon : Bytes) : MemoryStore :=
  { s with
    objects := s.objects.set act.hash (canon, "act")
    acts := s.acts.set act.hash act
    commandIndex := s.commandIndex.set act.commandHash
      ((s.commandIndex.get? act.commandHash).getD [] ++ [act.hash]) }

variable {s}

theorem mem_historyCut {h : Hash} : h ∈ s.historyCut ↔ ∃ act, s.acts.get? h = some act := by
  rw [historyCut, Dict.mem_keySet, Dict.mem_keys_iff]

/-- **Storing an object** either refuses and changes nothing, or binds the hash to
exactly these bytes and this kind, and loses no object. -/
theorem putObject_cases {h : Hash} {canon : Bytes} {kind : String} {r : Except Raised Unit}
    {t : MemoryStore} (hput : s.putObject h canon kind = (r, t)) :
    ((∃ e, r = .error e) ∧ t = s) ∨
      (r = .ok () ∧ t = { s with objects := s.objects.set h (canon, kind) } ∧
        s.objects ≤ t.objects) := by
  rw [putObject] at hput
  split at hput
  · cases hput
    exact Or.inl ⟨⟨_, rfl⟩, rfl⟩
  · rename_i hold
    cases hput
    refine Or.inr ⟨rfl, rfl, Dict.le_set fun w hw => ?_⟩
    by_contra hne
    exact hold ⟨by simp [hw], by simpa [hw] using hne⟩

/-- **What `commit_act` does**: it returns the Act it holds under that hash, or
refuses and changes nothing, or the Act takes its place and no object is lost. -/
theorem commitAct_cases {act : Act} {canon : Bytes} {r : Except Raised Act} {t : MemoryStore}
    (hrun : s.commitAct act canon = (r, t)) :
    (∃ existing, s.acts.get? act.hash = some existing ∧ r = .ok existing ∧ t = s) ∨
      ((∃ e, r = .error e) ∧ t = s) ∨
      (s.acts.get? act.hash = none ∧ r = .ok act ∧ t = s.withAct act canon ∧
        s.objects ≤ t.objects) := by
  rw [commitAct] at hrun
  split at hrun
  · rename_i existing hex
    cases hrun
    exact Or.inl ⟨existing, hex, rfl, rfl⟩
  · rename_i hnone
    dsimp only at hrun
    split at hrun
    · cases hrun
      exact Or.inr (Or.inl ⟨⟨_, rfl⟩, rfl⟩)
    · rename_i hold
      rw [appendAct, if_neg (Dict.get?_eq_none_iff.mp hnone)] at hrun
      cases hrun
      refine Or.inr (Or.inr ⟨hnone, rfl, rfl, Dict.le_set fun w hw => ?_⟩)
      by_contra hne
      exact hold ⟨by simp [hw], by simpa [hw] using hne⟩

/-- An indexed hash is answered with the Act that stands under it. -/
theorem actOfIndexed_ok_iff {h : Hash} {act : Act} :
    (match s.acts.get? h with
      | some act => Except.ok act
      | none => Except.error (⟨.keyError, h⟩ : Raised)) = .ok act ↔ s.acts.get? h = some act := by
  rcases s.acts.get? h with _ | found
  · simp
  · simp

/-- **What `get_acts_for_command` returns**: the Acts under the indexed hashes, in their
order. -/
theorem getActsForCommand_ok_iff {c : Hash} {owned : List Act} :
    s.getActsForCommand c = .ok owned ↔
      List.Forall₂ (fun k act => s.acts.get? k = some act) ((s.commandIndex.get? c).getD [])
        owned := by
  rw [getActsForCommand, Results.mapM_ok_iff]
  simp only [actOfIndexed_ok_iff]

/-- The Acts `get_acts_for_command` returns are in history, and were indexed under
that Command. -/
theorem mem_getActsForCommand {c : Hash} {owned : List Act}
    (h : s.getActsForCommand c = .ok owned) {act : Act} :
    act ∈ owned ↔ ∃ k ∈ (s.commandIndex.get? c).getD [], s.acts.get? k = some act := by
  have hpairs := getActsForCommand_ok_iff.mp h
  constructor
  · intro hact
    exact Results.exists_of_forall₂ hpairs act hact
  · rintro ⟨k, hk, hget⟩
    obtain ⟨act', hact', hfound⟩ := Results.exists_of_forall₂ hpairs.flip k hk
    rw [hget] at hfound
    cases hfound
    exact hact'

/-- A Command whose indexed hashes all have their Acts is answered. -/
theorem getActsForCommand_ok {c : Hash}
    (h : ∀ k ∈ (s.commandIndex.get? c).getD [], ∃ act, s.acts.get? k = some act) :
    ∃ owned, s.getActsForCommand c = .ok owned := by
  refine Results.exists_mapM_ok_iff.mpr fun k hk => ?_
  obtain ⟨act, hact⟩ := h k hk
  exact ⟨act, actOfIndexed_ok_iff.mpr hact⟩

/-- **An indexed hash without an Act is a `KeyError`**, and nothing else is raised. -/
theorem getActsForCommand_error {c : Hash} {e : Raised} (h : s.getActsForCommand c = .error e) :
    e.cls = .keyError ∧ ∃ k ∈ (s.commandIndex.get? c).getD [], s.acts.get? k = none := by
  obtain ⟨k, hk, he⟩ := Results.mapM_error h
  rcases hget : s.acts.get? k with _ | act
  · rw [hget] at he
    cases he
    exact ⟨rfl, k, hk, hget⟩
  · rw [hget] at he
    cases he

end MemoryStore

/-! ### The ledger -/

/-- The state of a `MemoryLedger`. -/
structure MemoryLedger extends MemoryStore where
  identities : Dict Hash Identity
  /-- The principal-binding projection. -/
  principalBindings : Dict (String × String) Hash
  registryMetadata : Dict (String × String × Hash) RegistryEntry

namespace MemoryLedger

variable (s : MemoryLedger)

/-- `MemoryLedger.registered`, by name or by definition hash. -/
def registered (kind name : String) (cut : Cut) : Bool :=
  s.registryMetadata.values.any fun e =>
    e.kind = kind ∧ (e.name = name ∨ e.hash = name) ∧ e.bornAt ∈ cut

/-- `MemoryLedger.get_object`. -/
def getObject (objectHash : Hash) : Option ObjectRecord :=
  (s.objects.get? objectHash).map fun found => ⟨objectHash, found.1, found.2⟩

/-- `MemoryLedger.is_closed_cut`. -/
def isClosedCut (cut : Cut) : Bool :=
  decide (∀ h ∈ cut, (s.acts.get? h).any (fun act => act.parents.all fun p => p ∈ cut) = true)

/-- The order of `registry_entries`: by kind, then name, then version. -/
def entryLe (a b : RegistryEntry) : Bool :=
  if a.kind ≠ b.kind then a.kind < b.kind
  else if a.name ≠ b.name then a.name < b.name
  else a.version ≤ b.version

/-- `MemoryLedger.registry_entries`. -/
def registryEntries (kind : Option String) (cut : Cut) : List RegistryEntry :=
  (s.registryMetadata.values.filter fun e =>
    e.bornAt ∈ cut ∧ (kind = none ∨ kind = some e.kind)).insertionSort fun a b => entryLe a b = true

/-- The hash a definition is registered under: the given one, else the name of a Rule that
is named by its hash, else the hash of the definition. -/
def definitionHash (P : Primitives) (kind name : String) (entryHash : Option Hash)
    (definition : CanonValue) : Except Raised Hash :=
  let derived :=
    if kind = "rule" ∧ name.length = 64 then .ok name else objectHash P "registry" definition
  match entryHash with
  | none => derived
  | some h => if h = "" then derived else .ok h

/-- `MemoryLedger.register`: a version of a name, born at an Act. -/
def register (P : Primitives) (kind name : String) (bornAt : Hash) (version : ℤ)
    (constitutional : Bool) (entryHash : Option Hash) : Except Raised Unit × MemoryLedger :=
  let named : MemoryLedger := { s with toMemoryStore := s.toMemoryStore.register kind name bornAt }
  let definition :=
    CanonValue.dict [("kind", .str kind), ("name", .str name), ("version", .int version)]
  match definitionHash P kind name entryHash definition with
  | .error e => (.error e, named)
  | .ok hash =>
      let entry : RegistryEntry := ⟨hash, kind, name, version, bornAt, constitutional, definition⟩
      (.ok (), { named with
        registryMetadata := named.registryMetadata.set (kind, name, bornAt) entry })

/-- `MemoryLedger.resolve_principal`. -/
def resolvePrincipal (issuer subject : String) : Option Hash :=
  if issuer = "" ∨ subject = "" then none
  else s.principalBindings.get? (issuer, subject)

/-- `MemoryLedger.link_principal`. -/
def linkPrincipal (issuer subject : String) (identityHash : Hash) : MemoryLedger :=
  { s with principalBindings := s.principalBindings.set (issuer, subject) identityHash }

/-- `MemoryLedger.revoke_principal`: the binding stops resolving. -/
def revokePrincipal (issuer subject : String) : MemoryLedger :=
  { s with principalBindings := s.principalBindings.pop (issuer, subject) }

/-- A method of the store, run on the ledger that extends it. -/
def lift {α : Type} (r : Except Raised α × MemoryStore) : Except Raised α × MemoryLedger :=
  (r.1, { s with toMemoryStore := r.2 })

/-- **The ledger answers the store protocol**, with `registered` as given. -/
def handle (known : MemoryLedger → String → String → Cut → Bool) :
    Handler LedgerOp.Ret Raised MemoryLedger
  | .historyCut, s => (.ok s.historyCut, s)
  | .registered kind name cut, s => (.ok (known s kind name cut), s)
  | .hasObject h, s => (.ok (s.objects.get? h).isSome, s)
  | .hasAct h, s => (.ok (s.acts.get? h).isSome, s)
  | .putObject h canon kind, s => s.lift (s.putObject h canon kind)
  | .objectCanon h, s => (.ok (s.objectCanon h), s)
  | .commitAct act canon _, s => s.lift (s.commitAct act canon)
  | .getAct h, s => (.ok (s.acts.get? h), s)
  | .getActsForCommand h, s => (s.getActsForCommand h, s)
  | .getObject h, s => (.ok (s.getObject h), s)
  | .isClosedCut cut, s => (.ok (s.isClosedCut cut), s)
  | .getIdentity h _, s => (.ok (s.identities.get? h), s)
  | .registryEntries kind cut, s => (.ok (s.registryEntries kind cut), s)
  | .resolvePrincipal issuer subject, s => (.ok (s.resolvePrincipal issuer subject), s)
  | .linkPrincipal issuer subject identityHash _, s =>
      (.ok (), s.linkPrincipal issuer subject identityHash)
  | .revokePrincipal issuer subject _, s => (.ok (), s.revokePrincipal issuer subject)

variable {s} {t u : MemoryLedger} {known : MemoryLedger → String → String → Cut → Bool}

/-- **A cut is closed** when its members are stored Acts whose parents are members. -/
theorem isClosedCut_iff {cut : Cut} : s.isClosedCut cut = true ↔
    ∀ h ∈ cut, ∃ act, s.acts.get? h = some act ∧ ∀ p ∈ act.parents, p ∈ cut := by
  simp only [isClosedCut, decide_eq_true_eq, Option.any_eq_true, List.all_eq_true]

/-- The ledger after an Act has taken its place. -/
def withAct (s : MemoryLedger) (act : Act) (canon : Bytes) : MemoryLedger :=
  { s with toMemoryStore := s.toMemoryStore.withAct act canon }

/-- **Nothing but objects was added**: history, its index, the bindings and the
registry are as they were, and no object was lost. -/
structure SameHistory (s t : MemoryLedger) : Prop where
  acts : t.acts = s.acts
  commandIndex : t.commandIndex = s.commandIndex
  registry : t.registry = s.registry
  identities : t.identities = s.identities
  principalBindings : t.principalBindings = s.principalBindings
  registryMetadata : t.registryMetadata = s.registryMetadata
  objects : s.objects ≤ t.objects

theorem SameHistory.refl (s : MemoryLedger) : SameHistory s s :=
  ⟨rfl, rfl, rfl, rfl, rfl, rfl, le_refl _⟩

theorem SameHistory.trans (h : SameHistory s t) (h' : SameHistory t u) : SameHistory s u :=
  ⟨h'.acts.trans h.acts, h'.commandIndex.trans h.commandIndex, h'.registry.trans h.registry,
    h'.identities.trans h.identities, h'.principalBindings.trans h.principalBindings,
    h'.registryMetadata.trans h.registryMetadata, h.objects.trans h'.objects⟩

theorem SameHistory.getActsForCommand (h : SameHistory s t) (c : Hash) :
    t.getActsForCommand c = s.getActsForCommand c := by
  rw [MemoryStore.getActsForCommand, h.acts, h.commandIndex]
  rfl

/-- **A reading method leaves the ledger alone.** -/
theorem handle_isRead {o : LedgerOp} (ho : o.IsRead) (s : MemoryLedger) :
    (handle known o s).2 = s := by
  cases o <;> first | rfl | exact absurd ho id

/-- **A method that admits no Act and binds no principal adds objects at most.** -/
theorem handle_isPlain {o : LedgerOp} (ho : o.IsPlain) (s : MemoryLedger) :
    SameHistory s (handle known o s).2 := by
  cases o with
  | putObject h canon kind =>
    rcases hput : s.putObject h canon kind with ⟨r, t⟩
    have hstate : (handle known (.putObject h canon kind) s).2 = { s with toMemoryStore := t } := by
      simp [handle, lift, hput]
    rw [hstate]
    rcases MemoryStore.putObject_cases hput with ⟨-, rfl⟩ | ⟨-, rfl, hle⟩
    · exact SameHistory.refl s
    · exact ⟨rfl, rfl, rfl, rfl, rfl, rfl, hle⟩
  | commitAct act canon commandType => exact absurd ho id
  | linkPrincipal issuer subject identityHash linkedAct => exact absurd ho id
  | revokePrincipal issuer subject unlinkedAct => exact absurd ho id
  | _ => exact SameHistory.refl s

section Runs

open LedgerM

/-! ### What each operation answers -/

@[simp] theorem run_historyCut : historyCut.run (handle known) s = (.ok s.historyCut, s) :=
  Prog.run_call

@[simp] theorem run_registered {kind name : String} {cut : Cut} :
    (LedgerM.registered kind name cut).run (handle known) s = (.ok (known s kind name cut), s) :=
  Prog.run_call

@[simp] theorem run_hasObject {h : Hash} :
    (hasObject h).run (handle known) s = (.ok (s.objects.get? h).isSome, s) := Prog.run_call

@[simp] theorem run_hasAct {h : Hash} :
    (hasAct h).run (handle known) s = (.ok (s.acts.get? h).isSome, s) := Prog.run_call

@[simp] theorem run_putObject {h : Hash} {canon : Bytes} {kind : String} :
    (putObject h canon kind).run (handle known) s = s.lift (s.putObject h canon kind) :=
  Prog.run_call

@[simp] theorem run_objectCanon {h : Hash} :
    (objectCanon h).run (handle known) s = (.ok (s.objectCanon h), s) := Prog.run_call

@[simp] theorem run_commitAct {act : Act} {canon : Bytes} {commandType : String} :
    (commitAct act canon commandType).run (handle known) s = s.lift (s.commitAct act canon) :=
  Prog.run_call

@[simp] theorem run_getAct {h : Hash} :
    (getAct h).run (handle known) s = (.ok (s.acts.get? h), s) := Prog.run_call

@[simp] theorem run_getActsForCommand {h : Hash} :
    (getActsForCommand h).run (handle known) s = (s.getActsForCommand h, s) := Prog.run_call

@[simp] theorem run_isClosedCut {cut : Cut} :
    (LedgerM.isClosedCut cut).run (handle known) s = (.ok (s.isClosedCut cut), s) := Prog.run_call

@[simp] theorem run_getIdentity {h : Hash} {cut : Cut} :
    (getIdentity h cut).run (handle known) s = (.ok (s.identities.get? h), s) := Prog.run_call

@[simp] theorem run_registryEntries {kind : Option String} {cut : Cut} :
    (LedgerM.registryEntries kind cut).run (handle known) s =
      (.ok (s.registryEntries kind cut), s) :=
  Prog.run_call

@[simp] theorem run_resolvePrincipal {issuer subject : String} :
    (LedgerM.resolvePrincipal issuer subject).run (handle known) s
      = (.ok (s.resolvePrincipal issuer subject), s) := Prog.run_call

@[simp] theorem run_linkPrincipal {issuer subject : String} {identityHash linkedAct : Hash} :
    (LedgerM.linkPrincipal issuer subject identityHash linkedAct).run (handle known) s
      = (.ok (), s.linkPrincipal issuer subject identityHash) := Prog.run_call

@[simp] theorem run_revokePrincipal {issuer subject : String} {unlinkedAct : Hash} :
    (LedgerM.revokePrincipal issuer subject unlinkedAct).run (handle known) s
      = (.ok (), s.revokePrincipal issuer subject) := Prog.run_call

end Runs

end MemoryLedger

/-- The `MemoryLedger` as a ledger: names are looked up in the registry metadata. -/
def memoryLedger : Handler LedgerOp.Ret Raised MemoryLedger :=
  MemoryLedger.handle MemoryLedger.registered

end PowerfarmKernel
