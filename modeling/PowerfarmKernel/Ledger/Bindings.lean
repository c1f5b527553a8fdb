import PowerfarmKernel.Lib.Runs
import PowerfarmKernel.Kernel.Sample
import PowerfarmKernel.Ledger.Postgres

/-!
# The two projections of principal bindings

The in-memory ledger keeps a mapping from principals to Identities: a link overwrites, a
revocation deletes. The database keeps rows: a link appends one unless a row with its
primary key is there or the principal has a live one, and a revocation ends the live row
and leaves it. The adapter passes no text with `U+0000` to the database: such a call raises.
Both answer `resolve_principal` (`PowerfarmKernel.Bindings.InSync` says that their answers agree).

Revocations always keep them in step. A link does exactly when the database takes it, or
already answers what it asks for (`PowerfarmKernel.Bindings.Fits`); the run of a whole
sequence of calls is `PowerfarmKernel.Bindings.inSync_run_iff`.
-/

namespace PowerfarmKernel

/-! ### What the reads return after a write -/

section Reads

variable {issuer subject issuer' subject' : String} {identityHash linkedAct unlinkedAct : Hash}

/-- **A link in memory**: the principal resolves to the Identity, every other one as before. -/
theorem MemoryLedger.resolvePrincipal_linkPrincipal (s : MemoryLedger) :
    (s.linkPrincipal issuer subject identityHash).resolvePrincipal issuer' subject'
      = if issuer' = "" ∨ subject' = "" then none
        else if issuer' = issuer ∧ subject' = subject then some identityHash
        else s.resolvePrincipal issuer' subject' := by
  simp only [resolvePrincipal, linkPrincipal, Dict.get?_set, Prod.mk.injEq]
  split
  · rfl
  · rfl

/-- **A revocation in memory**: the principal resolves to nothing, every other one as
before. -/
theorem MemoryLedger.resolvePrincipal_revokePrincipal (s : MemoryLedger) :
    (s.revokePrincipal issuer subject).resolvePrincipal issuer' subject'
      = if issuer' = issuer ∧ subject' = subject then none
        else s.resolvePrincipal issuer' subject' := by
  simp only [resolvePrincipal, revokePrincipal, Dict.get?_pop, Prod.mk.injEq]
  split
  · simp
  · rfl

namespace Postgres

variable {db t : Postgres}

/-- **The live row of a principal is what it resolves to**, as there is one at most. -/
theorem resolved_of_isLive (hc : (livePrincipals db.principalBindings).Nodup)
    (hbar : ¬Barred issuer subject) {b : PrincipalBinding}
    (hb : b ∈ db.principalBindings) (hlive : b.IsLive issuer subject) :
    db.resolved issuer subject = some b.identityHash := by
  rw [resolved_eq, if_neg hbar]
  rcases hfind : db.principalBindings.find? fun b => b.IsLive issuer subject with _ | found
  · exact absurd (decide_eq_true hlive) (List.find?_eq_none.mp hfind b hb)
  · have hmem := List.mem_of_find?_eq_some hfind
    have hfound : found.IsLive issuer subject := by simpa using List.find?_some hfind
    have hprincipal : (found.issuer, found.subject) = (b.issuer, b.subject) := by
      rw [hfound.1, hfound.2.1, hlive.1, hlive.2.1]
    have heq : found = b :=
      List.inj_on_of_nodup_map hc (List.mem_filter.mpr ⟨hmem, decide_eq_true hfound.2.2⟩)
        (List.mem_filter.mpr ⟨hb, decide_eq_true hlive.2.2⟩) hprincipal
    rw [hfind, heq, Option.map_some]

/-- **A row that is inserted** is what its principal resolves to, when it resolved to
nothing. -/
theorem resolved_append (row : PrincipalBinding) (hrow : row.unlinkedAct = none)
    (hbar : ¬Barred row.issuer row.subject)
    (hnone : ∀ b ∈ db.principalBindings, ¬b.IsLive row.issuer row.subject) :
    ({ db with principalBindings := db.principalBindings ++ [row] } :
        Postgres).resolved issuer' subject'
      = if issuer' = row.issuer ∧ subject' = row.subject then some row.identityHash
        else db.resolved issuer' subject' := by
  simp only [resolved_eq, List.find?_append]
  split
  · rename_i hbar'
    rw [if_neg]
    exact fun hsame => hbar (hsame.1 ▸ hsame.2 ▸ hbar')
  split
  · rename_i hsame
    obtain ⟨rfl, rfl⟩ := hsame
    have hfind : (db.principalBindings.find? fun b => b.IsLive row.issuer row.subject) = none :=
      List.find?_eq_none.mpr fun b hb => by simpa using hnone b hb
    rw [hfind, Option.none_or, List.find?_cons_of_pos (by simp [PrincipalBinding.IsLive, hrow]),
      Option.map_some]
  · rename_i hother
    have hfind : ([row].find? fun b => b.IsLive issuer' subject') = none := by
      rw [List.find?_cons_of_neg]
      · rfl
      · rw [decide_eq_true_eq]
        exact fun hlive => hother ⟨hlive.1.symm, hlive.2.1.symm⟩
    rw [hfind, Option.or_none]

/-- The row that a revocation leaves. -/
def ended (issuer subject : String) (unlinkedAct : Hash) (b : PrincipalBinding) :
    PrincipalBinding :=
  if b.IsLive issuer subject then { b with unlinkedAct := some unlinkedAct } else b

/-- After a revocation the live rows are those of the other principals. -/
theorem isLive_ended_iff {b : PrincipalBinding} :
    (ended issuer subject unlinkedAct b).IsLive issuer' subject' ↔
      b.IsLive issuer' subject' ∧ ¬(issuer' = issuer ∧ subject' = subject) := by
  rw [ended]
  split
  · rename_i hlive
    constructor
    · intro h
      cases h.2.2
    · rintro ⟨h, hother⟩
      exact absurd ⟨h.1.symm.trans hlive.1, h.2.1.symm.trans hlive.2.1⟩ hother
  · rename_i hlive
    refine ⟨fun h => ⟨h, ?_⟩, fun h => h.1⟩
    rintro ⟨rfl, rfl⟩
    exact hlive h

/-- **A revocation in the database**: the principal resolves to nothing, every other one
as before. -/
theorem resolved_ended :
    ({ db with principalBindings := db.principalBindings.map (ended issuer subject unlinkedAct) } :
          Postgres).resolved issuer' subject'
      = if issuer' = issuer ∧ subject' = subject then none
        else db.resolved issuer' subject' := by
  simp only [resolved_eq, List.find?_map, Function.comp_def, isLive_ended_iff]
  by_cases hsame : issuer' = issuer ∧ subject' = subject
  · simp [hsame]
  · simp only [hsame, not_false_eq_true, and_true, if_false]
    split
    · rfl
    -- the row found is one that the revocation left alone
    rcases hfind : db.principalBindings.find? fun b => b.IsLive issuer' subject' with _ | found
    · rw [hfind]
      rfl
    · have hlive : found.IsLive issuer' subject' := by simpa using List.find?_some hfind
      have hkept : ended issuer subject unlinkedAct found = found := by
        rw [ended, if_neg]
        exact fun h => hsame ⟨hlive.1.symm.trans h.1, hlive.2.1.symm.trans h.2.1⟩
      rw [hfind, Option.map_some, hkept]

end Postgres

end Reads

/-! ### Operations on both sides -/

/-- A write to the projection of the principal bindings. -/
inductive BindingOp where
  | link (issuer subject : String) (identityHash linkedAct : Hash)
  | revoke (issuer subject : String) (unlinkedAct : Hash)

namespace BindingOp

/-- The method of the store protocol it calls. -/
def toLedgerOp : BindingOp → LedgerOp
  | .link issuer subject identityHash linkedAct =>
      .linkPrincipal issuer subject identityHash linkedAct
  | .revoke issuer subject unlinkedAct => .revokePrincipal issuer subject unlinkedAct

/-- **The Identity and the Act it names exist**, under texts the database can hold. -/
def Exists (db : Postgres) : BindingOp → Prop
  | .link _ _ identityHash linkedAct =>
      [identityHash, linkedAct].all Postgres.isText = true ∧
        db.identities.get? identityHash ≠ none ∧ db.HasAct linkedAct
  | .revoke _ _ unlinkedAct => Postgres.isText unlinkedAct = true ∧ db.HasAct unlinkedAct

end BindingOp

namespace Bindings

open Runs

variable (P : Primitives) (known : MemoryLedger → String → String → Cut → Bool)

/-- The two stores after one write, which may raise in either. -/
def step (x : MemoryLedger × Postgres) (op : BindingOp) : MemoryLedger × Postgres :=
  ((MemoryLedger.handle known op.toLedgerOp x.1).2, (Postgres.handle P op.toLedgerOp x.2).2)

/-- The two stores after a sequence of writes. -/
abbrev exec (x : MemoryLedger × Postgres) (ops : List BindingOp) : MemoryLedger × Postgres :=
  Runs.exec (step P known) x ops

/-- **Every principal resolves to the same on both sides**: to an Identity, or to none. A call
that raises returns none. -/
def InSync (x : MemoryLedger × Postgres) : Prop :=
  ∀ issuer subject, x.1.resolvePrincipal issuer subject = x.2.resolved issuer subject

/-- **The database leaves a write its effect**: a link names no principal at all, or it can be
passed to the database, and its principal has a live row with the Identity it links, or no live
row and none that the same Act has linked. -/
def Fits (db : Postgres) : BindingOp → Prop
  | .link issuer subject identityHash linkedAct =>
      (issuer = "" ∨ subject = "") ∨ [issuer, subject].all Postgres.isText = true ∧
        ((∃ b ∈ db.principalBindings, b.IsLive issuer subject ∧ b.identityHash = identityHash) ∨
          ∀ b ∈ db.principalBindings, b.issuer = issuer → b.subject = subject →
            b.unlinkedAct ≠ none ∧ b.linkedAct ≠ linkedAct)
  | .revoke _ _ _ => True

variable {P known} {s : MemoryLedger} {db : Postgres} {issuer subject : String}
  {identityHash linkedAct unlinkedAct : Hash}

/-- A link the database ignores or refuses: no row can be of its principal, or its key is taken,
or its principal has a live row. -/
def Ignored (db : Postgres) (issuer subject : String) (linkedAct : Hash) : Prop :=
  Postgres.Barred issuer subject ∨
    (∃ b ∈ db.principalBindings, b.issuer = issuer ∧ b.subject = subject ∧
      b.linkedAct = linkedAct) ∨
    ∃ b ∈ db.principalBindings, b.IsLive issuer subject

theorem handle_link_of_ignored (h : Ignored db issuer subject linkedAct) :
    (Postgres.handle P (.linkPrincipal issuer subject identityHash linkedAct) db).2 = db := by
  rw [Postgres.handle, Postgres.linkPrincipal, Postgres.passTexts]
  by_cases htexts : [issuer, subject, identityHash, linkedAct].all Postgres.isText = false
  · rw [Postgres.refuse, if_pos htexts]
    rfl
  rw [Postgres.refuse, if_neg htexts]
  by_cases hempty : issuer = "" ∨ subject = ""
  · rw [Postgres.refuse, if_pos hempty]
    rfl
  rw [Postgres.refuse, if_neg hempty]
  by_cases htaken : ∃ b ∈ db.principalBindings, b.issuer = issuer ∧ b.subject = subject ∧
      b.linkedAct = linkedAct
  · rw [if_pos htaken]
    rfl
  · have hbar : ¬Postgres.Barred issuer subject := fun hbar =>
      htexts (Postgres.all_isText_append (hbar.resolve_left hempty))
    have hlive := (h.resolve_left hbar).resolve_left htaken
    rw [if_neg htaken, Postgres.insertBinding, Postgres.refuse, if_pos hlive]
    rfl

/-- **A link the database takes** appends a live row. -/
theorem handle_link_of_not_ignored
    (hexists : (BindingOp.link issuer subject identityHash linkedAct).Exists db)
    (h : ¬Ignored db issuer subject linkedAct) :
    (Postgres.handle P (.linkPrincipal issuer subject identityHash linkedAct) db).2
      = { db with principalBindings :=
          db.principalBindings ++ [⟨issuer, subject, identityHash, linkedAct, none⟩] } := by
  obtain ⟨hbar, hrows⟩ := not_or.mp h
  obtain ⟨hempty, hprincipal⟩ := not_or.mp hbar
  obtain ⟨htaken, hlive⟩ := not_or.mp hrows
  obtain ⟨hhashes, hidentity, hact⟩ := hexists
  have htexts : ¬[issuer, subject, identityHash, linkedAct].all Postgres.isText = false := by
    rw [show [issuer, subject, identityHash, linkedAct] = [issuer, subject] ++
      [identityHash, linkedAct] from rfl, List.all_append, hhashes, Bool.and_true]
    exact hprincipal
  rw [Postgres.handle, Postgres.linkPrincipal, Postgres.passTexts, Postgres.insertBinding]
  simp only [Postgres.refuse, if_neg htexts, if_neg hempty, if_neg htaken, if_neg hlive,
    if_neg hidentity, if_neg (not_not.mpr hact)]
  rfl

/-- **A revocation keeps the two sides in step.** -/
theorem inSync_revoke (h : InSync (s, db))
    (hexists : (BindingOp.revoke issuer subject unlinkedAct).Exists db) :
    InSync (step P known (s, db) (.revoke issuer subject unlinkedAct)) := by
  obtain ⟨htext, hact⟩ := hexists
  intro issuer' subject'
  have hstep := h issuer' subject'
  have hmemory : (s.revokePrincipal issuer subject).resolvePrincipal issuer' subject'
      = if issuer' = issuer ∧ subject' = subject then none
        else db.resolved issuer' subject' := by
    rw [s.resolvePrincipal_revokePrincipal, hstep]
  rw [step, BindingOp.toLedgerOp]
  refine hmemory.trans ?_
  by_cases hprincipal : [issuer, subject].all Postgres.isText = false
  · -- The call raises, and no row was of the principal.
    have hdb : (Postgres.handle P (.revokePrincipal issuer subject unlinkedAct) db).2 = db := by
      rw [Postgres.handle, Postgres.revokePrincipal, Postgres.passTexts, Postgres.refuse, if_pos]
      · rfl
      · rw [List.all_cons, hprincipal, Bool.and_false]
    rw [hdb]
    split
    · rename_i hsame
      rw [hsame.1, hsame.2, Postgres.resolved_of_barred (Or.inr hprincipal)]
    · rfl
  · have htexts : ¬[unlinkedAct, issuer, subject].all Postgres.isText = false := by
      rwa [List.all_cons, htext, Bool.true_and]
    have hdb : (Postgres.handle P (.revokePrincipal issuer subject unlinkedAct) db).2
        = { db with principalBindings :=
            db.principalBindings.map (Postgres.ended issuer subject unlinkedAct) } := by
      rw [Postgres.handle, Postgres.revokePrincipal, Postgres.passTexts]
      simp only [Postgres.refuse, if_neg htexts, if_neg fun hmissing : _ ∧ ¬db.HasAct unlinkedAct =>
        hmissing.2 hact]
      rfl
    rw [hdb]
    exact Postgres.resolved_ended.symm

/-- A link that memory alone has made keeps the sides in step when the database resolves
the principal to that Identity already. -/
theorem inSync_link_memory_iff (h : InSync (s, db)) (hempty : ¬(issuer = "" ∨ subject = "")) :
    InSync (s.linkPrincipal issuer subject identityHash, db) ↔
      db.resolved issuer subject = some identityHash := by
  constructor
  · intro hsync
    have hself := hsync issuer subject
    rw [s.resolvePrincipal_linkPrincipal, if_neg hempty, if_pos ⟨rfl, rfl⟩] at hself
    exact hself.symm
  · intro hresolves issuer' subject'
    change (s.linkPrincipal issuer subject identityHash).resolvePrincipal issuer' subject'
      = db.resolved issuer' subject'
    rw [s.resolvePrincipal_linkPrincipal]
    split
    · rename_i hempty'
      rw [Postgres.resolved_of_barred (Or.inl hempty')]
    split
    · rename_i hsame
      rw [hsame.1, hsame.2, hresolves]
    · exact h issuer' subject'

/-- The live row of a principal has the Identity when the principal resolves to it. -/
theorem exists_isLive_iff (hc : (Postgres.livePrincipals db.principalBindings).Nodup)
    (hbar : ¬Postgres.Barred issuer subject) :
    (∃ b ∈ db.principalBindings, b.IsLive issuer subject ∧ b.identityHash = identityHash) ↔
      db.resolved issuer subject = some identityHash := by
  constructor
  · rintro ⟨b, hb, hlive, rfl⟩
    exact Postgres.resolved_of_isLive hc hbar hb hlive
  · intro h
    rw [Postgres.resolved_eq, if_neg hbar] at h
    obtain ⟨b, hfind, hidentity⟩ := Option.map_eq_some_iff.mp h
    exact ⟨b, List.mem_of_find?_eq_some hfind, by simpa using List.find?_some hfind, hidentity⟩

/-- **A link keeps the two sides in step exactly when it fits the rows.** -/
theorem inSync_link_iff (h : InSync (s, db))
    (hc : (Postgres.livePrincipals db.principalBindings).Nodup)
    (hexists : (BindingOp.link issuer subject identityHash linkedAct).Exists db) :
    InSync (step P known (s, db) (.link issuer subject identityHash linkedAct)) ↔
      Fits db (.link issuer subject identityHash linkedAct) := by
  have hmemory : (step P known (s, db) (.link issuer subject identityHash linkedAct)).1
      = s.linkPrincipal issuer subject identityHash := rfl
  by_cases hempty : issuer = "" ∨ subject = ""
  · -- Neither side resolves a principal that is none.
    refine iff_of_true (fun issuer' subject' => ?_) (Or.inl hempty)
    rw [hmemory, s.resolvePrincipal_linkPrincipal, step, BindingOp.toLedgerOp,
      handle_link_of_ignored (Or.inl (Or.inl hempty))]
    split
    · rename_i hempty'
      rw [Postgres.resolved_of_barred (Or.inl hempty')]
    split
    · rename_i hne hsame
      rw [hsame.1, hsame.2] at hne
      exact absurd hempty hne
    · exact h issuer' subject'
  by_cases hprincipal : [issuer, subject].all Postgres.isText = false
  · -- Memory binds a principal that the database cannot resolve.
    have hbar : Postgres.Barred issuer subject := Or.inr hprincipal
    have hstep : step P known (s, db) (.link issuer subject identityHash linkedAct)
        = (s.linkPrincipal issuer subject identityHash, db) :=
      Prod.ext rfl (handle_link_of_ignored (Or.inl hbar))
    rw [hstep, inSync_link_memory_iff h hempty, Postgres.resolved_of_barred hbar]
    refine iff_of_false nofun fun hfits => ?_
    exact Bool.false_ne_true (hprincipal.symm.trans (hfits.resolve_left hempty).1)
  have hbar : ¬Postgres.Barred issuer subject := not_or.mpr ⟨hempty, hprincipal⟩
  have htexts : [issuer, subject].all Postgres.isText = true := eq_true_of_ne_false hprincipal
  by_cases hignored : Ignored db issuer subject linkedAct
  · -- The database is as it was: it must resolve to the Identity already.
    have hstep : step P known (s, db) (.link issuer subject identityHash linkedAct)
        = (s.linkPrincipal issuer subject identityHash, db) :=
      Prod.ext rfl (handle_link_of_ignored hignored)
    rw [hstep, inSync_link_memory_iff h hempty, ← exists_isLive_iff hc hbar]
    refine ⟨fun hlive => Or.inr ⟨htexts, Or.inl hlive⟩, ?_⟩
    rintro (hempty' | ⟨-, hlive | hnone⟩)
    · exact absurd hempty' hempty
    · exact hlive
    · rcases hignored.resolve_left hbar with ⟨b, hb, hi, hs, ha⟩ | ⟨b, hb, hlive⟩
      · exact absurd ha (hnone b hb hi hs).2
      · exact absurd hlive.2.2 (hnone b hb hlive.1 hlive.2.1).1
  · -- The database takes the row, and both sides resolve to the Identity.
    have hrows := not_or.mp (not_or.mp hignored).2
    refine iff_of_true (fun issuer' subject' => ?_) (Or.inr ⟨htexts, Or.inr fun b hb hi hs =>
      ⟨fun hnone => hrows.2 ⟨b, hb, hi, hs, hnone⟩, fun ha => hrows.1 ⟨b, hb, hi, hs, ha⟩⟩⟩)
    rw [hmemory, s.resolvePrincipal_linkPrincipal, step, BindingOp.toLedgerOp,
      handle_link_of_not_ignored hexists hignored,
      Postgres.resolved_append _ rfl hbar fun b hb hlive => hrows.2 ⟨b, hb, hlive⟩,
      show s.resolvePrincipal issuer' subject' = db.resolved issuer' subject' from
        h issuer' subject']
    split
    · rename_i hempty'
      rw [Postgres.resolved_of_barred (Or.inl hempty'), if_neg]
      rintro ⟨rfl, rfl⟩
      exact hempty hempty'
    · rfl

/-- **One write keeps the sides in step exactly when it fits.** -/
theorem inSync_step_iff {x : MemoryLedger × Postgres} {op : BindingOp} (h : InSync x)
    (hc : (Postgres.livePrincipals x.2.principalBindings).Nodup) (hexists : op.Exists x.2) :
    InSync (step P known x op) ↔ Fits x.2 op := by
  cases op with
  | link issuer subject identityHash linkedAct => exact inSync_link_iff h hc hexists
  | revoke issuer subject unlinkedAct => exact iff_of_true (inSync_revoke h hexists) trivial

/-! ### Runs -/

/-- A link changes no Identity. -/
theorem linkPrincipal_identities {t : Postgres}
    (h : db.linkPrincipal issuer subject identityHash linkedAct = .ok t) :
    t.identities = db.identities := by
  rw [Postgres.linkPrincipal, Postgres.passTexts] at h
  obtain ⟨-, h⟩ := Postgres.refuse_bind_ok.mp h
  obtain ⟨-, h⟩ := Postgres.refuse_bind_ok.mp h
  split at h
  · cases h
    rfl
  · rw [Postgres.insertBinding] at h
    obtain ⟨-, h⟩ := Postgres.refuse_bind_ok.mp h
    obtain ⟨-, h⟩ := Postgres.refuse_bind_ok.mp h
    obtain ⟨-, h⟩ := Postgres.refuse_bind_ok.mp h
    cases h
    rfl

/-- A revocation changes no Identity. -/
theorem revokePrincipal_identities {t : Postgres}
    (h : db.revokePrincipal issuer subject unlinkedAct = .ok t) :
    t.identities = db.identities := by
  rw [Postgres.revokePrincipal, Postgres.passTexts] at h
  obtain ⟨-, h⟩ := Postgres.refuse_bind_ok.mp h
  obtain ⟨-, h⟩ := Postgres.refuse_bind_ok.mp h
  cases h
  rfl

/-- **What a sequence of writes leaves alone**: the Acts and the Identities, so what
existed exists, and no principal gets a second live row. -/
structure Stays (db t : Postgres) : Prop where
  acts : t.acts = db.acts
  identities : t.identities = db.identities
  activeBinding : (Postgres.livePrincipals db.principalBindings).Nodup →
    (Postgres.livePrincipals t.principalBindings).Nodup

theorem Stays.refl (db : Postgres) : Stays db db := ⟨rfl, rfl, id⟩

theorem Stays.trans {t u : Postgres} (h : Stays db t) (h' : Stays t u) : Stays db u :=
  ⟨h'.acts.trans h.acts, h'.identities.trans h.identities,
    fun hnodup => h'.activeBinding (h.activeBinding hnodup)⟩

theorem Stays.of_execute {r : Except Raised Postgres}
    (hkept : ∀ t, r = .ok t → Postgres.Kept db t)
    (hidentities : ∀ t, r = .ok t → t.identities = db.identities) :
    Stays db (db.execute r).2 := by
  rcases r with e | t
  · exact Stays.refl db
  · exact ⟨(hkept t rfl).acts, hidentities t rfl, (hkept t rfl).activeBinding⟩

theorem stays_step (x : MemoryLedger × Postgres) (op : BindingOp) :
    Stays x.2 (step P known x op).2 := by
  cases op with
  | link issuer subject identityHash linkedAct =>
    exact Stays.of_execute (fun _ => Postgres.linkPrincipal_ok) fun _ => linkPrincipal_identities
  | revoke issuer subject unlinkedAct =>
    exact Stays.of_execute (fun _ => Postgres.revokePrincipal_ok)
      fun _ => revokePrincipal_identities

theorem stays_exec (x : MemoryLedger × Postgres) (ops : List BindingOp) :
    Stays x.2 (exec P known x ops).2 :=
  exec_rel (R := fun x y : MemoryLedger × Postgres => Stays x.2 y.2) (fun x => Stays.refl x.2)
    Stays.trans stays_step List.nil_prefix

theorem Stays.exists {t : Postgres} (h : Stays db t) {op : BindingOp} (hop : op.Exists db) :
    op.Exists t := by
  cases op with
  | link issuer subject identityHash linkedAct =>
    obtain ⟨htexts, hidentity, hact⟩ := hop
    exact ⟨htexts, by rw [h.identities]; exact hidentity,
      by rw [Postgres.HasAct, h.acts]; exact hact⟩
  | revoke issuer subject unlinkedAct =>
    obtain ⟨htext, hact⟩ := hop
    exact ⟨htext, by rw [Postgres.HasAct, h.acts]; exact hact⟩

/-- **The two projections agree after every write exactly when every write fits the rows it
finds**: for every sequence of links and revocations of existing Identities and Acts, from
any two stores that agree. -/
theorem inSync_run_iff (P : Primitives) (known : MemoryLedger → String → String → Cut → Bool)
    (s : MemoryLedger) (db : Postgres) (hc : (Postgres.livePrincipals db.principalBindings).Nodup)
    (h : InSync (s, db)) (ops : List BindingOp) (hexists : ∀ op ∈ ops, op.Exists db) :
    (∀ pre, pre <+: ops → InSync (exec P known (s, db) pre)) ↔
      ∀ pre op, Made ops pre op → Fits (exec P known (s, db) pre).2 op := by
  have hstep : ∀ pre op, Made ops pre op → InSync (exec P known (s, db) pre) →
      (InSync (exec P known (s, db) (pre ++ [op])) ↔ Fits (exec P known (s, db) pre).2 op) := by
    intro pre op hmade hsync
    have hstays : Stays db (exec P known (s, db) pre).2 := stays_exec (s, db) pre
    rw [exec, exec_concat]
    exact inSync_step_iff hsync (hstays.activeBinding hc)
      (hstays.exists (hexists op hmade.mem))
  constructor
  · intro hall pre op hmade
    exact (hstep pre op hmade (hall pre hmade.earlier)).mp (hall _ hmade)
  · intro hfits pre
    induction pre using List.reverseRecOn with
    | nil => exact fun _ => h
    | append_singleton pre op ih =>
      intro hmade
      have hpre : pre <+: ops := (List.prefix_append pre [op]).trans hmade
      exact (hstep pre op hmade (ih hpre)).mpr (hfits pre op hmade)

end Bindings

/-! ### Two stores that part -/

namespace Sample

/-- A second Identity. -/
def robot : Identity := ⟨"robot", "agent", [4, 5, 6]⟩

/-- A database with two Acts, two Identities and no bindings. -/
def bindingTables : Postgres where
  objects := Dict.empty
  acts := [genesis "", { genesis "" with hash := "0001" }]
  registry := []
  identities := (Dict.empty.set "human" "human").set "robot" "agent"
  identityKeys := []
  principalBindings := []

/-- A ledger with the same Identities and no bindings. -/
def bindingLedger : MemoryLedger := ledger "" [] [human, robot] []

/-- A link of a principal to an Identity. -/
def linkTo (identity : Identity) (linkedAct : Hash) : BindingOp :=
  .link "https://idp" "alice" identity.hash linkedAct

/-- The revocation of that principal. -/
def unlink (unlinkedAct : Hash) : BindingOp := .revoke "https://idp" "alice" unlinkedAct

instance (db : Postgres) : (op : BindingOp) → Decidable (op.Exists db)
  | .link _ _ identityHash linkedAct =>
      inferInstanceAs (Decidable ([identityHash, linkedAct].all Postgres.isText = true ∧
        db.identities.get? identityHash ≠ none ∧ db.HasAct linkedAct))
  | .revoke _ _ unlinkedAct =>
      inferInstanceAs (Decidable (Postgres.isText unlinkedAct = true ∧ db.HasAct unlinkedAct))

instance (db : Postgres) : (op : BindingOp) → Decidable (Bindings.Fits db op)
  | .link issuer subject identityHash linkedAct => inferInstanceAs (Decidable
      ((issuer = "" ∨ subject = "") ∨ [issuer, subject].all Postgres.isText = true ∧
        ((∃ b ∈ db.principalBindings, b.IsLive issuer subject ∧ b.identityHash = identityHash) ∨
          ∀ b ∈ db.principalBindings, b.issuer = issuer → b.subject = subject →
            b.unlinkedAct ≠ none ∧ b.linkedAct ≠ linkedAct)))
  | .revoke _ _ _ => isTrue trivial

/-- Two stores without bindings agree. -/
theorem inSync_bindings : Bindings.InSync (bindingLedger, bindingTables) := by
  intro issuer subject
  simp [MemoryLedger.resolvePrincipal, Postgres.resolved_eq, bindingLedger, ledger, bindingTables]

/-- A principal moves from one Identity to another: revoked first, it agrees all the way. -/
theorem inSync_moved : Bindings.InSync (Bindings.exec (primitives "") MemoryLedger.registered
    (bindingLedger, bindingTables) [linkTo human "0000", unlink "0001", linkTo robot "0001"]) :=
  (Bindings.inSync_run_iff (primitives "") MemoryLedger.registered bindingLedger bindingTables
    List.nodup_nil inSync_bindings [linkTo human "0000", unlink "0001", linkTo robot "0001"]
    (by decide)).mpr (Runs.forall_made_iff.mpr (by decide)) _ List.prefix_rfl

/-- **The two projections part**: linked to a second Identity, a principal moves in memory
and stays in the database; linked again by the Act that linked it before its revocation, it
resolves in memory and not in the database; and so does one that holds the character `U+0000`. -/
theorem not_inSync :
    bindingLedger.principalBindings.entries = [] ∧ bindingTables.principalBindings = [] ∧
    (linkTo human "0000").Exists bindingTables ∧ (linkTo robot "0001").Exists bindingTables ∧
    (unlink "0001").Exists bindingTables ∧
    (Bindings.exec (primitives "") MemoryLedger.registered (bindingLedger, bindingTables)
      [linkTo human "0000", linkTo robot "0001"]).1.resolvePrincipal "https://idp" "alice"
        = some "robot" ∧
    (Bindings.exec (primitives "") MemoryLedger.registered (bindingLedger, bindingTables)
      [linkTo human "0000", linkTo robot "0001"]).2.resolvePrincipal "https://idp" "alice"
        = .ok (some "human") ∧
    (Bindings.exec (primitives "") MemoryLedger.registered (bindingLedger, bindingTables)
      [linkTo human "0000", unlink "0001", linkTo human "0000"]).1.resolvePrincipal
        "https://idp" "alice" = some "human" ∧
    (Bindings.exec (primitives "") MemoryLedger.registered (bindingLedger, bindingTables)
      [linkTo human "0000", unlink "0001", linkTo human "0000"]).2.resolvePrincipal
        "https://idp" "alice" = .ok none ∧
    (Bindings.exec (primitives "") MemoryLedger.registered (bindingLedger, bindingTables)
      [.link "https://idp" "\x00" human.hash "0000"]).1.resolvePrincipal
        "https://idp" "\x00" = some "human" ∧
    (Bindings.exec (primitives "") MemoryLedger.registered (bindingLedger, bindingTables)
      [.link "https://idp" "\x00" human.hash "0000"]).2.resolved "https://idp" "\x00" = none := by
  decide +kernel

end Sample

end PowerfarmKernel
