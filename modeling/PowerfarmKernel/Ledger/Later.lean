import PowerfarmKernel.Ledger.Postgres
import PowerfarmKernel.Lib.Results

/-!
# Reading at a cut, later

What happens to the database after two cuts have been fixed: Acts are committed, objects
stored, names registered, keys of identities added and closed, but nothing of it at an Act
inside the cuts (`PowerfarmKernel.Postgres.Advance`). Each read that filters by a cut does
so in its own way, and each is shown to give the answer it gave before
(`PowerfarmKernel.Postgres.Unmoved`).
-/

namespace PowerfarmKernel

namespace Postgres

variable {P : Primitives} {historyCut registryCut cut : Cut} {s t u : Postgres}

/-! ### Later states -/

/-- **What may happen after the cuts were fixed.** Of a new name or key nothing is asked
but where it begins. -/
inductive Advance (historyCut registryCut : Cut) (s : Postgres) : Postgres → Prop
  /-- An Act is committed, or found. -/
  | commit {act r : Act} {canon : Bytes} {commandType : String} {t : Postgres}
      (h : s.commitAct act canon commandType = .ok (r, t)) : Advance historyCut registryCut s t
  /-- An object is stored, or found. -/
  | store {objectHash : Hash} {canon : Bytes} {kind : String} {t : Postgres}
      (h : s.putObject objectHash canon kind = .ok t) : Advance historyCut registryCut s t
  /-- A name is registered at an Act outside the registry cut. -/
  | register (row : RegistryRow) (h : row.bornAt ∉ registryCut) :
      Advance historyCut registryCut s { s with registry := s.registry ++ [row] }
  /-- An identity is given a key, valid from an Act outside the history cut. -/
  | addKey (key : IdentityKey) (h : key.validFromAct ∉ historyCut) :
      Advance historyCut registryCut s { s with identityKeys := s.identityKeys ++ [key] }
  /-- Open keys are closed by an Act outside the history cut. -/
  | closeKeys (closed : IdentityKey → Bool) (revoked : Hash) (h : revoked ∉ historyCut) :
      Advance historyCut registryCut s { s with
        identityKeys := s.identityKeys.map fun k =>
          if closed k ∧ k.validUntilAct = none then { k with validUntilAct := some revoked }
          else k }

/-- **What is the same later on.** -/
structure Unmoved (historyCut registryCut : Cut) (s t : Postgres) : Prop where
  acts : s.acts <+: t.acts
  objects : s.objects ≤ t.objects
  registry : (t.registry.filter fun r => r.bornAt ∈ registryCut) =
    s.registry.filter fun r => r.bornAt ∈ registryCut
  identities : t.identities = s.identities
  keys : ∀ h, (t.identityKeysAtCut h historyCut).map IdentityKey.pubkey =
    (s.identityKeysAtCut h historyCut).map IdentityKey.pubkey
  principalBindings : t.principalBindings = s.principalBindings

namespace Unmoved

theorem refl (s : Postgres) : Unmoved historyCut registryCut s s :=
  ⟨List.prefix_rfl, le_refl _, rfl, rfl, fun _ => rfl, rfl⟩

theorem trans (h : Unmoved historyCut registryCut s t) (h' : Unmoved historyCut registryCut t u) :
    Unmoved historyCut registryCut s u :=
  ⟨h.acts.trans h'.acts, h.objects.trans h'.objects, h'.registry.trans h.registry,
    h'.identities.trans h.identities, fun x => (h'.keys x).trans (h.keys x),
    h'.principalBindings.trans h.principalBindings⟩

end Unmoved

/-- A key that begins outside the cut is not there at the cut. -/
theorem identityKeysAtCut_addKey {key : IdentityKey} (h : key.validFromAct ∉ cut) (x : Hash) :
    ({ s with identityKeys := s.identityKeys ++ [key] } : Postgres).identityKeysAtCut x cut =
      s.identityKeysAtCut x cut := by
  rw [identityKeysAtCut, List.filter_append, identityKeysAtCut]
  simp [h]

/-- A key that ends outside the cut is still there at the cut. -/
theorem pubkeys_closeKeys {closed : IdentityKey → Bool} {revoked : Hash} (h : revoked ∉ cut)
    (x : Hash) :
    (({ s with identityKeys := s.identityKeys.map fun k =>
        if closed k ∧ k.validUntilAct = none then { k with validUntilAct := some revoked }
        else k } : Postgres).identityKeysAtCut x cut).map IdentityKey.pubkey =
      (s.identityKeysAtCut x cut).map IdentityKey.pubkey := by
  rw [identityKeysAtCut, identityKeysAtCut]
  change List.map _ (List.filter _ (s.identityKeys.map _)) = _
  rw [List.filter_map, List.map_map]
  congr 1
  · funext k
    dsimp only [Function.comp_apply]
    split
    · rfl
    · rfl
  · congr 1
    funext k
    dsimp only [Function.comp_apply]
    split
    · rename_i hclosed
      rw [hclosed.2]
      simp [h]
    · rfl

/-- What is not written to by a commit or a store: the two differ in their Acts and
objects. -/
structure SameRest (s t : Postgres) : Prop where
  registry : t.registry = s.registry
  identities : t.identities = s.identities
  identityKeys : t.identityKeys = s.identityKeys
  principalBindings : t.principalBindings = s.principalBindings

theorem SameRest.unmoved (h : SameRest s t) (hacts : s.acts <+: t.acts)
    (hobjects : s.objects ≤ t.objects) : Unmoved historyCut registryCut s t where
  acts := hacts
  objects := hobjects
  registry := by rw [h.registry]
  identities := h.identities
  keys x := by rw [identityKeysAtCut, identityKeysAtCut, h.identityKeys]
  principalBindings := h.principalBindings

theorem sameRest_storeAct {act : Act} {canon : Bytes} (h : s.storeAct act canon = .ok t) :
    SameRest s t := by
  rw [storeAct] at h
  split at h
  · split at h
    · cases h
    · cases h
      exact ⟨rfl, rfl, rfl, rfl⟩
  · cases h
    exact ⟨rfl, rfl, rfl, rfl⟩

theorem sameRest_commitAct {act r : Act} {canon : Bytes} {commandType : String}
    (h : s.commitAct act canon commandType = .ok (r, t)) : SameRest s t := by
  rw [commitAct] at h
  split at h
  · cases h
    exact ⟨rfl, rfl, rfl, rfl⟩
  · obtain ⟨-, h⟩ := refuse_bind_ok.mp h
    obtain ⟨_, -, h⟩ := bind_ok.mp h
    obtain ⟨stored, hstored, h⟩ := bind_ok.mp h
    obtain ⟨inserted, hinserted, h⟩ := bind_ok.mp h
    cases h
    obtain ⟨-, rfl⟩ := insertAct_ok hinserted
    have hrest := sameRest_storeAct hstored
    exact ⟨hrest.registry, hrest.identities, hrest.identityKeys, hrest.principalBindings⟩

theorem sameRest_putObject {objectHash : Hash} {canon : Bytes} {kind : String}
    (h : s.putObject objectHash canon kind = .ok t) : SameRest s t := by
  rw [putObject] at h
  split at h
  · split at h
    · cases h
    · cases h
      exact ⟨rfl, rfl, rfl, rfl⟩
  · split at h
    · cases h
      exact ⟨rfl, rfl, rfl, rfl⟩
    · cases h

/-- **One step leaves what was fixed where it was.** -/
theorem Advance.unmoved (h : Advance historyCut registryCut s t) :
    Unmoved historyCut registryCut s t := by
  have hrefl : Unmoved historyCut registryCut s s := .refl s
  cases h with
  | commit h =>
    rcases commitAct_ok h with ⟨-, rfl⟩ | ⟨-, hinserted⟩
    · exact hrefl
    · refine (sameRest_commitAct h).unmoved ?_ hinserted.objects
      rw [hinserted.acts]
      exact List.prefix_append _ _
  | store h =>
    have hkept := putObject_ok h
    refine (sameRest_putObject h).unmoved ?_ hkept.objects
    rw [hkept.acts]
  | register row h =>
    refine { hrefl with registry := ?_ }
    rw [List.filter_append, List.filter_singleton, decide_eq_false h]
    exact List.append_nil _
  | addKey key h =>
    refine { hrefl with keys := fun x => ?_ }
    rw [identityKeysAtCut_addKey h]
  | closeKeys closed revoked h => exact { hrefl with keys := pubkeys_closeKeys h }

/-- **A step keeps the constraints of the tables.** -/
theorem Advance.constraints (h : Advance historyCut registryCut s t) (hc : Constraints s) :
    Constraints t := by
  cases h with
  | @commit act r canon commandType _ h =>
    rcases commitAct_ok h with ⟨-, rfl⟩ | ⟨-, hinserted⟩
    · exact hc
    · exact hc.inserted hinserted
  | store h => exact hc.kept (putObject_ok h)
  | register row h => exact ⟨hc.actsHash, hc.oneConsequence, hc.actsPayload, hc.activeBinding⟩
  | addKey key h => exact ⟨hc.actsHash, hc.oneConsequence, hc.actsPayload, hc.activeBinding⟩
  | closeKeys closed revoked h =>
    exact ⟨hc.actsHash, hc.oneConsequence, hc.actsPayload, hc.activeBinding⟩

/-- **Any number of steps.** -/
abbrev Later (historyCut registryCut : Cut) : Postgres → Postgres → Prop :=
  Relation.ReflTransGen (Advance historyCut registryCut)

theorem Later.unmoved (h : Later historyCut registryCut s t) :
    Unmoved historyCut registryCut s t := by
  induction h with
  | refl => exact .refl s
  | tail _ hstep ih => exact ih.trans hstep.unmoved

theorem Later.constraints (h : Later historyCut registryCut s t) (hc : Constraints s) :
    Constraints t := by
  induction h with
  | refl => exact hc
  | tail _ hstep ih => exact hstep.constraints ih

/-! ### The reads -/

namespace Unmoved

variable (h : Unmoved historyCut registryCut s t)

include h

/-- **A closed cut stays closed.** -/
theorem isClosedCut (ht : Constraints t) (hclosed : s.isClosedCut cut = true) :
    t.isClosedCut cut = true :=
  isClosedCut_of_prefix h.acts ht.actsHash hclosed

/-- **The keys valid at the history cut** are the keys that were. -/
theorem getIdentity (identityHash : Hash) :
    t.getIdentity identityHash historyCut = s.getIdentity identityHash historyCut := by
  have hkeys := h.keys identityHash
  rw [Postgres.getIdentity, Postgres.getIdentity, h.identities]
  rcases s.identities.get? identityHash with _ | kind
  · rfl
  dsimp only
  rcases hs : s.identityKeysAtCut identityHash historyCut with _ | ⟨k, _ | ⟨k', keys⟩⟩ <;>
    rw [hs] at hkeys
  · rw [List.map_eq_nil_iff.mp hkeys]
  · obtain ⟨key, hkey, hpubkey⟩ := List.map_eq_singleton_iff.mp hkeys
    rw [hkey]
    dsimp only
    rw [hpubkey]
  · obtain ⟨key, rest, hkey, -, hrest⟩ := List.map_eq_cons_iff.mp hkeys
    obtain ⟨key', rest', rfl, -, -⟩ := List.map_eq_cons_iff.mp hrest
    rw [hkey]

/-- The names born in the registry cut are the names that were. -/
theorem mem_registry {r : RegistryRow} (hr : r.bornAt ∈ registryCut) :
    r ∈ t.registry ↔ r ∈ s.registry := by
  have hmem : r ∈ t.registry.filter (fun r => r.bornAt ∈ registryCut) ↔
      r ∈ s.registry.filter (fun r => r.bornAt ∈ registryCut) := by rw [h.registry]
  simpa [hr] using hmem

theorem registered (kind name : String) :
    t.registered kind name registryCut = s.registered kind name registryCut := by
  rw [Bool.eq_iff_iff, Postgres.registered, Postgres.registered, List.any_eq_true,
    List.any_eq_true]
  simp only [decide_eq_true_eq]
  constructor
  · rintro ⟨r, hr, hkind, hname, hborn⟩
    exact ⟨r, (h.mem_registry hborn).mp hr, hkind, hname, hborn⟩
  · rintro ⟨r, hr, hkind, hname, hborn⟩
    exact ⟨r, (h.mem_registry hborn).mpr hr, hkind, hname, hborn⟩

/-- **The entries of the registry cut**, with their definitions. -/
theorem registryEntries (hdefined : ∀ r ∈ s.registry, ∃ found, s.objects.get? r.hash = some found)
    (kind : Option String) :
    t.registryEntries P kind registryCut = s.registryEntries P kind registryCut := by
  have hsplit : ∀ rows : List RegistryRow, (rows.filter fun r => r.bornAt ∈ registryCut ∧
        (kind = none ∨ kind = some r.kind)) =
      (rows.filter fun r => r.bornAt ∈ registryCut).filter fun r =>
        kind = none ∨ kind = some r.kind := by
    intro rows
    rw [List.filter_filter]
    congr 1
    funext r
    rw [Bool.and_comm, ← Bool.decide_and]
  have hentry : ∀ r ∈ s.registry, t.registryEntry P r = s.registryEntry P r := by
    intro r hr
    obtain ⟨found, hfound⟩ := hdefined r hr
    rw [registryEntry, registryEntry, hfound, Dict.get?_of_le h.objects hfound]
  rw [Postgres.registryEntries, Postgres.registryEntries, hsplit, h.registry, ← hsplit]
  rw [Results.mapM_congr fun r hr =>
      hentry r (List.mem_of_mem_filter ((List.mem_insertionSort _).mp hr))]

theorem resolvePrincipal (issuer subject : String) :
    t.resolvePrincipal issuer subject = s.resolvePrincipal issuer subject := by
  rw [Postgres.resolvePrincipal, Postgres.resolvePrincipal, h.principalBindings]

theorem getObject_isSome {x : Hash} (hx : (s.getObject x).isSome = true) :
    (t.getObject x).isSome = true := by
  rw [getObject, Option.isSome_map] at hx ⊢
  obtain ⟨found, hfound⟩ := Option.isSome_iff_exists.mp hx
  rw [Dict.get?_of_le h.objects hfound]
  rfl

end Unmoved

end Postgres

end PowerfarmKernel
