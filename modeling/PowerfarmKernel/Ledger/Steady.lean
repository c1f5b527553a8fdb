import PowerfarmKernel.Ledger.Later
import PowerfarmKernel.Lib.Atomic

/-!
# What no method of the store changes

Whatever the clients of a database do, and in whatever order, they do it by the methods of
the store. These add Acts and objects, and they bind and unbind principals; the registry,
the identities and their keys they only read (`PowerfarmKernel.Postgres.Steady`). So as long
as no Act is committed nearly every reading method keeps its answer
(`PowerfarmKernel.Postgres.Steady.handle_eq`), and a write that was made is found made
(`PowerfarmKernel.Postgres.Steady.putObject`).
-/

namespace PowerfarmKernel

open Interleaving

/-- **A method whose answer depends on the Acts only**, besides what no method changes. -/
def LedgerOp.IsSettled : LedgerOp → Prop
  | .historyCut => True
  | .registered _ _ _ => True
  | .hasAct _ => True
  | .getAct _ => True
  | .getActsForCommand _ => True
  | .isClosedCut _ => True
  | .getIdentity _ _ => True
  | .registryEntries _ _ => True
  | _ => False

/-- A method that touches no principal binding. -/
def LedgerOp.KeepsBindings : LedgerOp → Prop
  | .linkPrincipal _ _ _ _ => False
  | .revokePrincipal _ _ _ => False
  | _ => True

theorem LedgerOp.IsPlain.keepsBindings {o : LedgerOp} (h : o.IsPlain) : o.KeepsBindings := by
  cases o <;> first | exact h | trivial

namespace Postgres

variable {P : Primitives} {s t u : Postgres}

/-- What the references of the registry promise: every definition is stored. -/
def Defined (db : Postgres) : Prop :=
  ∀ r ∈ db.registry, ∃ found, db.objects.get? r.hash = some found

/-- **What any number of calls can do to a database.** -/
structure Steady (s t : Postgres) : Prop extends Grown s t where
  registry : t.registry = s.registry
  identities : t.identities = s.identities
  identityKeys : t.identityKeys = s.identityKeys

namespace Steady

theorem refl (s : Postgres) : Steady s s := ⟨Grown.refl s, rfl, rfl, rfl⟩

theorem trans (h : Steady s t) (h' : Steady t u) : Steady s u :=
  ⟨h.toGrown.trans h'.toGrown, h'.registry.trans h.registry, h'.identities.trans h.identities,
    h'.identityKeys.trans h.identityKeys⟩

theorem defined (h : Steady s t) (hs : s.Defined) : t.Defined := by
  intro r hr
  rw [h.registry] at hr
  obtain ⟨found, hfound⟩ := hs r hr
  exact ⟨found, Dict.get?_of_le h.objects hfound⟩

theorem of_sameRest (h : SameRest s t) (hgrown : Grown s t) : Steady s t :=
  ⟨hgrown, h.registry, h.identities, h.identityKeys⟩

end Steady

theorem steady_execute {r : Except Raised Postgres} (h : ∀ t, r = .ok t → Steady s t) :
    Steady s (s.execute r).2 := by
  rcases r with e | t
  · exact Steady.refl s
  · exact h t rfl

theorem steady_linkPrincipal {issuer subject : String} {identityHash linkedAct : Hash}
    (h : s.linkPrincipal issuer subject identityHash linkedAct = .ok t) : Steady s t := by
  rw [linkPrincipal, passTexts] at h
  obtain ⟨-, h⟩ := refuse_bind_ok.mp h
  obtain ⟨-, h⟩ := refuse_bind_ok.mp h
  split at h
  · cases h
    exact Steady.refl s
  · rw [insertBinding] at h
    obtain ⟨-, h⟩ := refuse_bind_ok.mp h
    obtain ⟨-, h⟩ := refuse_bind_ok.mp h
    obtain ⟨-, h⟩ := refuse_bind_ok.mp h
    cases h
    exact ⟨⟨List.prefix_rfl, le_refl _⟩, rfl, rfl, rfl⟩

theorem steady_revokePrincipal {issuer subject : String} {unlinkedAct : Hash}
    (h : s.revokePrincipal issuer subject unlinkedAct = .ok t) : Steady s t := by
  rw [revokePrincipal, passTexts] at h
  obtain ⟨-, h⟩ := refuse_bind_ok.mp h
  obtain ⟨-, h⟩ := refuse_bind_ok.mp h
  cases h
  exact ⟨⟨List.prefix_rfl, le_refl _⟩, rfl, rfl, rfl⟩

/-- **Every method keeps to it.** -/
theorem steady_handle (P : Primitives) (o : LedgerOp) (s : Postgres) :
    Steady s (handle P o s).2 := by
  have hgrown := grown_handle P o s
  cases o with
  | putObject h canon kind =>
    refine steady_execute fun t hput => .of_sameRest (sameRest_putObject hput) ?_
    rwa [handle, hput] at hgrown
  | linkPrincipal issuer subject identityHash linkedAct =>
    exact steady_execute fun _ => steady_linkPrincipal
  | revokePrincipal issuer subject unlinkedAct =>
    exact steady_execute fun _ => steady_revokePrincipal
  | commitAct act canon commandType =>
    rcases hcommit : s.commitAct act canon commandType with e | ⟨r, t⟩
    · rw [handle, hcommit]
      exact Steady.refl s
    · rw [handle, hcommit] at hgrown ⊢
      exact .of_sameRest (sameRest_commitAct hcommit) hgrown
  | _ => exact Steady.refl s

/-- **What a method that binds nobody does**: nothing, or it stores an object, or it inserts
an Act. -/
theorem handle_cases_of_keepsBindings {o : LedgerOp} (ho : o.KeepsBindings) (s : Postgres) :
    (handle P o s).2 = s ∨
      (∃ h canon kind, s.putObject h canon kind = .ok (handle P o s).2) ∨
      ∃ act canon commandType, o = .commitAct act canon commandType ∧
        Inserted s (handle P o s).2 act := by
  cases o with
  | putObject h canon kind =>
    rcases hput : s.putObject h canon kind with e | t
    · rw [handle, hput]
      exact Or.inl rfl
    · refine Or.inr (Or.inl ⟨h, canon, kind, hput.trans ?_⟩)
      rw [handle, hput]
      rfl
  | commitAct act canon commandType =>
    rcases hcommit : s.commitAct act canon commandType with e | ⟨r, t⟩
    · rw [handle, hcommit]
      exact Or.inl rfl
    · rcases commitAct_ok hcommit with ⟨-, rfl⟩ | ⟨-, hinserted⟩
      · rw [handle, hcommit]
        exact Or.inl rfl
      · refine Or.inr (Or.inr ⟨act, canon, commandType, rfl, ?_⟩)
        rw [handle, hcommit]
        exact hinserted
  | linkPrincipal issuer subject identityHash linkedAct => exact ho.elim
  | revokePrincipal issuer subject unlinkedAct => exact ho.elim
  | _ => exact Or.inl rfl

theorem handle_principalBindings {o : LedgerOp} (ho : o.KeepsBindings) (s : Postgres) :
    (handle P o s).2.principalBindings = s.principalBindings := by
  rcases handle_cases_of_keepsBindings (P := P) ho s with heq | ⟨h, canon, kind, hput⟩ |
    ⟨act, canon, commandType, -, hinserted⟩
  · rw [heq]
  · exact (sameRest_putObject hput).principalBindings
  · exact hinserted.principalBindings

/-- **How a database drifts** under its clients. -/
def drift (P : Primitives) : Drift (handle P) where
  inv db := db.Constraints ∧ db.Defined
  rely := Steady
  refl := Steady.refl
  trans := Steady.trans
  keeps s o h := ⟨⟨h.1.handle o, (steady_handle P o s).defined h.2⟩, steady_handle P o s⟩

namespace Steady

variable (h : Steady s t)

include h

/-! ### As long as no Act is committed -/

theorem registryEntries (hs : s.Defined) (kind : Option String) (cut : Cut) :
    t.registryEntries P kind cut = s.registryEntries P kind cut := by
  have hentry : ∀ r ∈ s.registry, t.registryEntry P r = s.registryEntry P r := by
    intro r hr
    obtain ⟨found, hfound⟩ := hs r hr
    rw [registryEntry, registryEntry, hfound, Dict.get?_of_le h.objects hfound]
  rw [Postgres.registryEntries, Postgres.registryEntries, h.registry]
  rw [Results.mapM_congr fun r hr =>
      hentry r (List.mem_of_mem_filter ((List.mem_insertionSort _).mp hr))]

/-- **As long as no Act is committed**, the reading methods keep their answers. -/
theorem handle_eq (hacts : t.acts = s.acts) (hs : s.Defined) {o : LedgerOp} (ho : o.IsSettled) :
    handle P o t = ((handle P o s).1, t) := by
  cases o with
  | historyCut => rw [handle, handle, historyCut, historyCut, hacts]
  | registered kind name cut => rw [handle, handle, registered, registered, h.registry]
  | hasAct x => rw [handle, handle, getAct, getAct, hacts]
  | getAct x => rw [handle, handle, getAct, getAct, hacts]
  | getActsForCommand x => rw [handle, handle, getActsForCommand, getActsForCommand, hacts]
  | isClosedCut cut => rw [handle, handle, isClosedCut, isClosedCut, hacts]
  | getIdentity x cut =>
    rw [handle, handle, getIdentity, getIdentity, identityKeysAtCut, identityKeysAtCut,
      h.identities, h.identityKeys]
  | registryEntries kind cut => rw [handle, handle, h.registryEntries hs]
  | _ => exact ho.elim

/-! ### What was found, or written, stays -/

theorem getObject {x : Hash} {found : ObjectRecord} (hfound : s.getObject x = some found) :
    t.getObject x = some found := by
  rw [Postgres.getObject, Option.map_eq_some_iff] at hfound ⊢
  obtain ⟨stored, hstored, heq⟩ := hfound
  exact ⟨stored, Dict.get?_of_le h.objects hstored, heq⟩

omit h

/-- **An object that was stored** is there. -/
theorem get?_of_putObject {x : Hash} {canon : Bytes} {kind : String}
    (hput : s.putObject x canon kind = .ok t) : t.objects.get? x = some (canon, kind) := by
  rw [Postgres.putObject] at hput
  rcases hfound : s.objects.get? x with _ | found
  · rw [hfound] at hput
    dsimp only at hput
    split at hput
    · cases hput
      exact Dict.get?_set_self ..
    · cases hput
  · rw [hfound] at hput
    dsimp only at hput
    split at hput
    · cases hput
    · rename_i hsame
      cases hput
      rw [hfound, not_not.mp hsame]

/-- Storing it again changes nothing. -/
theorem putObject {x : Hash} {canon : Bytes} {kind : String}
    (hput : s.putObject x canon kind = .ok t) (h : Steady t u) :
    u.putObject x canon kind = .ok u := by
  rw [Postgres.putObject, Dict.get?_of_le h.objects (get?_of_putObject hput)]
  simp

/-- **An Act that was handed over**, when nothing was committed by it or since, had been
there before. -/
theorem commitAct {act r : Act} {canon : Bytes} {commandType : String}
    (hcommit : s.commitAct act canon commandType = .ok (r, t)) (h : Steady t u)
    (hacts : u.acts = s.acts) : u.commitAct act canon commandType = .ok (r, u) := by
  rcases commitAct_ok hcommit with ⟨hget, -⟩ | ⟨-, hinserted⟩
  · rw [Postgres.commitAct]
    have hget' : u.getAct act.hash = some r := by
      rw [Postgres.getAct, hacts]
      exact hget
    rw [hget']
  · have hlength := h.acts.length_le
    rw [hacts, hinserted.acts, List.length_append, List.length_singleton] at hlength
    omega

end Steady

end Postgres

end PowerfarmKernel
