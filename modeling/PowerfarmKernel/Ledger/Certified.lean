import PowerfarmKernel.Kernel.Addressing
import PowerfarmKernel.Kernel.Domain
import PowerfarmKernel.Ledger.Representation
import PowerfarmKernel.Ledger.Steady
import PowerfarmKernel.Lib.Commitment

/-!
# A database that certifies itself

Every object stands under the digest of its own content; every Act stands under the digest
of its own fields, and its Command and its Context are objects; and the decision cut of an
Act is the history before it (`PowerfarmKernel.Postgres.Certified`). Whatever is written
with this in mind keeps it so (`PowerfarmKernel.Postgres.Certified.handle`).

Two such databases can be compared without trust in either. Where one hash stands for an Act
in both, the histories up to that Act are the same, and so are all the objects they refer
to, or else the two databases contain a collision of the digest between them
(`PowerfarmKernel.Postgres.Certified.agree`).
-/

namespace PowerfarmKernel

open Commitment

namespace Postgres

variable {P : Primitives} {base : List Act} {db s t u : Postgres} {a b : Act}

/-- **What an Act rests on is stored**: its own fields under its hash, its Command, its
Context and its payload. -/
structure Rooted (P : Primitives) (db : Postgres) (a : Act) : Prop where
  hash : objectHash P "act" a.value = .ok a.hash
  act : ∃ canon, canonicalize P a.value = .ok canon ∧
    db.objects.get? a.hash = some (canon, "act")
  command : ∃ canon, db.objects.get? a.commandHash = some (canon, "command")
  context : ∃ canon, db.objects.get? a.contextHash = some (canon, "context")
  payload : ∃ found, db.objects.get? a.payloadHash = some found

/-- Objects stay. -/
theorem Rooted.later (h : Rooted P s a) (hle : s.objects ≤ t.objects) : Rooted P t a where
  hash := h.hash
  act := by
    obtain ⟨canon, hcanon, hstored⟩ := h.act
    exact ⟨canon, hcanon, Dict.get?_of_le hle hstored⟩
  command := h.command.imp fun _ => Dict.get?_of_le hle
  context := h.context.imp fun _ => Dict.get?_of_le hle
  payload := h.payload.imp fun _ => Dict.get?_of_le hle

/-- **A database that certifies itself**, but for the Acts it was started with. -/
structure Certified (P : Primitives) (base : List Act) (db : Postgres) : Prop where
  objects : ∀ h canon kind, db.objects.get? h = some (canon, kind) → IsAddress P kind canon h
  commits : Commits Act.hash Act.decisionCut base db.acts
  rooted : ∀ a ∈ db.acts, a ∉ base → Rooted P db a

/-- A database whose objects stand under their addresses certifies whatever is added. -/
theorem certified_start (hc : db.Constraints)
    (hobjects : ∀ h canon kind, db.objects.get? h = some (canon, kind) →
      IsAddress P kind canon h) : Certified P db.acts db where
  objects := hobjects
  commits := .refl hc.actsHash
  rooted _ ha hnew := absurd ha hnew

/-! ### What keeps it so -/

/-- **A write that certifies itself**: an object goes under its address, and an Act under
its own, after its Command and its Context. -/
def Certifies (P : Primitives) (db : Postgres) : LedgerOp → Prop
  | .putObject h canon kind => IsAddress P kind canon h
  | .commitAct act canon _ =>
      objectHash P "act" act.value = .ok act.hash ∧ canonicalize P act.value = .ok canon ∧
      (∃ canon, db.objects.get? act.commandHash = some (canon, "command")) ∧
      ∃ canon, db.objects.get? act.contextHash = some (canon, "context")
  | _ => True

theorem certifies_of_isRead {o : LedgerOp} (ho : o.IsRead) (db : Postgres) :
    Certifies P db o := by
  cases o <;> first | exact ho.elim | trivial

theorem putObject_objects {h : Hash} {canon : Bytes} {kind : String}
    (hput : s.putObject h canon kind = .ok t) :
    t.objects = s.objects ∨ t.objects = s.objects.set h (canon, kind) := by
  rw [putObject] at hput
  rcases hfound : s.objects.get? h with _ | found
  · rw [hfound] at hput
    dsimp only at hput
    split at hput
    · cases hput
      exact Or.inr rfl
    · cases hput
  · rw [hfound] at hput
    dsimp only at hput
    split at hput
    · cases hput
    · cases hput
      exact Or.inl rfl

theorem storeAct_objects {canon : Bytes} (h : s.storeAct a canon = .ok t) :
    t.objects.get? a.hash = some (canon, "act") ∧
      (t.objects = s.objects ∨ t.objects = s.objects.set a.hash (canon, "act")) := by
  rw [storeAct] at h
  rcases hfound : s.objects.get? a.hash with _ | found
  · rw [hfound] at h
    cases h
    exact ⟨Dict.get?_set_self .., Or.inr rfl⟩
  · rw [hfound] at h
    dsimp only at h
    split at h
    · cases h
    · rename_i hsame
      cases h
      rw [hfound, not_not.mp hsame]
      exact ⟨rfl, Or.inl rfl⟩

/-- **What `commit_act` leaves among the objects**: what was there, and the Act. -/
theorem commitAct_objects {r : Act} {canon : Bytes} {commandType : String}
    (h : s.commitAct a canon commandType = .ok (r, t)) :
    (s.getAct a.hash = some r ∧ t = s) ∨
      (Inserted s t a ∧ t.objects.get? a.hash = some (canon, "act") ∧
        (t.objects = s.objects ∨ t.objects = s.objects.set a.hash (canon, "act"))) := by
  rcases commitAct_ok h with hfound | ⟨-, hinserted⟩
  · exact Or.inl hfound
  · refine Or.inr ⟨hinserted, ?_⟩
    rw [commitAct, getAct_eq_none_iff.mpr hinserted.fresh] at h
    dsimp only at h
    obtain ⟨-, h⟩ := refuse_bind_ok.mp h
    obtain ⟨_, -, h⟩ := bind_ok.mp h
    obtain ⟨stored, hstored, h⟩ := bind_ok.mp h
    obtain ⟨inserted, hrow, h⟩ := bind_ok.mp h
    cases h
    obtain ⟨-, rfl⟩ := insertAct_ok hrow
    have hobjects := storeAct_objects hstored
    exact hobjects

/-- One more object, under its address. -/
theorem Certified.of_objects (h : Certified P base s) (hacts : t.acts = s.acts)
    (hle : s.objects ≤ t.objects) {x : Hash} {canon : Bytes} {kind : String}
    (hobjects : t.objects = s.objects ∨ t.objects = s.objects.set x (canon, kind))
    (haddress : IsAddress P kind canon x) : Certified P base t where
  objects := by
    rcases hobjects with heq | heq
    · rw [heq]
      exact h.objects
    · rw [heq]
      exact ObjectsAddressed.set h.objects haddress
  commits := hacts ▸ h.commits
  rooted := by
    rw [hacts]
    exact fun a ha hnew => (h.rooted a ha hnew).later hle

/-- Binding a principal changes the bindings only. -/
theorem linkPrincipal_bindings {issuer subject : String} {identityHash linkedAct : Hash}
    (h : s.linkPrincipal issuer subject identityHash linkedAct = .ok t) :
    ∃ bindings, t = { s with principalBindings := bindings } := by
  rw [linkPrincipal, passTexts] at h
  obtain ⟨-, h⟩ := refuse_bind_ok.mp h
  obtain ⟨-, h⟩ := refuse_bind_ok.mp h
  split at h
  · cases h
    exact ⟨_, rfl⟩
  · rw [insertBinding] at h
    obtain ⟨-, h⟩ := refuse_bind_ok.mp h
    obtain ⟨-, h⟩ := refuse_bind_ok.mp h
    obtain ⟨-, h⟩ := refuse_bind_ok.mp h
    cases h
    exact ⟨_, rfl⟩

theorem revokePrincipal_bindings {issuer subject : String} {unlinkedAct : Hash}
    (h : s.revokePrincipal issuer subject unlinkedAct = .ok t) :
    ∃ bindings, t = { s with principalBindings := bindings } := by
  rw [revokePrincipal, passTexts] at h
  obtain ⟨-, h⟩ := refuse_bind_ok.mp h
  obtain ⟨-, h⟩ := refuse_bind_ok.mp h
  cases h
  exact ⟨_, rfl⟩

theorem Certified.of_bindings (h : Certified P base s)
    (ht : ∃ bindings, t = { s with principalBindings := bindings }) : Certified P base t := by
  obtain ⟨bindings, rfl⟩ := ht
  exact ⟨h.objects, h.commits, fun a ha hnew => (h.rooted a ha hnew).later (le_refl _)⟩

/-- **A write that certifies itself leaves a database that does.** -/
theorem Certified.handle (h : Certified P base s) (hc : s.Constraints) {o : LedgerOp}
    (ho : Certifies P s o) : Certified P base (Postgres.handle P o s).2 := by
  have hle := (grown_handle P o s).objects
  cases o with
  | putObject x canon kind =>
    rcases hput : s.putObject x canon kind with e | t
    · rw [Postgres.handle, hput]
      exact h
    · rw [Postgres.handle, hput] at hle ⊢
      exact h.of_objects (putObject_ok hput).acts hle (putObject_objects hput) ho
  | commitAct act canon commandType =>
    rcases hcommit : s.commitAct act canon commandType with e | ⟨r, t⟩
    · rw [Postgres.handle, hcommit]
      exact h
    · rw [Postgres.handle, hcommit] at hle ⊢
      change s.objects ≤ t.objects at hle
      change Certified P base t
      rcases commitAct_objects hcommit with ⟨-, rfl⟩ | ⟨hinserted, hstored, hobjects⟩
      · exact h
      obtain ⟨hhash, hcanon, hcommand, hcontext⟩ := ho
      constructor
      · rcases hobjects with heq | heq
        · rw [heq]
          exact h.objects
        · rw [heq]
          exact ObjectsAddressed.set h.objects ⟨_, hcanon, hhash⟩
      · -- The cut of the new Act is the history before it.
        rw [hinserted.acts]
        refine h.commits.concat (fun b hb heq => hinserted.fresh ⟨b, hb, heq⟩) ?_
        exact hinserted.decisionCut hc
      · rw [hinserted.acts]
        intro b hb hnew
        rcases List.mem_append.mp hb with hb | hb
        · exact (h.rooted b hb hnew).later hle
        · rw [List.mem_singleton.mp hb]
          exact ⟨hhash, ⟨canon, hcanon, hstored⟩, hcommand.imp fun _ => Dict.get?_of_le hle,
            hcontext.imp fun _ => Dict.get?_of_le hle,
            hinserted.payload.imp fun _ => Dict.get?_of_le hle⟩
  | linkPrincipal issuer subject identityHash linkedAct =>
    rcases hlink : s.linkPrincipal issuer subject identityHash linkedAct with e | t
    · rw [Postgres.handle, hlink]
      exact h
    · rw [Postgres.handle, hlink]
      exact h.of_bindings (linkPrincipal_bindings hlink)
  | revokePrincipal issuer subject unlinkedAct =>
    rcases hrevoke : s.revokePrincipal issuer subject unlinkedAct with e | t
    · rw [Postgres.handle, hrevoke]
      exact h
    · rw [Postgres.handle, hrevoke]
      exact h.of_bindings (revokePrincipal_bindings hrevoke)
  | _ => exact h

/-! ### Two databases that certify themselves -/

/-- The content of an object stands in a database, under its digest. -/
def Holds (P : Primitives) (db : Postgres) (a : Tagged P) : Prop :=
  db.objects.get? (P.sha256 a.bytes) = some (a.canon, a.kind)

/-- **A collision**: two contents, one from each of two databases, with one digest. -/
def Collision (P : Primitives) (s t : Postgres) : Prop :=
  ∃ a b : Tagged P, Holds P s a ∧ Holds P t b ∧ a.bytes ≠ b.bytes ∧
    P.sha256 a.bytes = P.sha256 b.bytes

/-- An object that stands under its address is the content of it. -/
theorem Certified.exists_holds (h : Certified P base s) {x : Hash} {canon : Bytes} {kind : String}
    (hx : s.objects.get? x = some (canon, kind)) : ∃ a : Tagged P, Holds P s a ∧
      a.kind = kind ∧ a.version = "v1" ∧ a.canon = canon ∧ P.sha256 a.bytes = x := by
  obtain ⟨value, hcanon, hhash⟩ := h.objects x canon kind hx
  obtain ⟨a, rfl, hversion, rfl⟩ := Tagged.exists_of_objectHashAt hhash
  have hsame : a.canon = canon := Except.ok.inj (a.canonical.symm.trans hcanon)
  have hdigest : P.sha256 a.bytes = x := by
    have heq := a.objectHashAt_eq
    rw [hversion] at heq
    exact Except.ok.inj (heq.symm.trans hhash)
  refine ⟨a, ?_, rfl, hversion, hsame, hdigest⟩
  rw [Holds, hdigest, hsame]
  exact hx

/-- **Without a collision, one address has one object**, kind included. -/
theorem Certified.object_eq {base' : List Act} (hs : Certified P base s)
    (ht : Certified P base' t) (hno : ¬Collision P s t) {x : Hash} {found found' : Bytes × String}
    (hx : s.objects.get? x = some found) (hx' : t.objects.get? x = some found') :
    found = found' := by
  obtain ⟨canon, kind⟩ := found
  obtain ⟨canon', kind'⟩ := found'
  obtain ⟨a, ha, rfl, hversion, rfl, rfl⟩ := hs.exists_holds hx
  obtain ⟨b, hb, rfl, hversion', rfl, hdigest⟩ := ht.exists_holds hx'
  have hbytes : a.bytes = b.bytes := by
    by_contra hdiff
    exact hno ⟨a, b, ha, hb, hdiff, hdigest.symm⟩
  rcases Tagged.cases_of_bytes_eq hbytes with ⟨hkind, -, hcanon⟩ | hab | hba
  · rw [hkind, hcanon]
  · exact absurd (hversion.trans hversion'.symm) hab.version_ne
  · exact absurd (hversion'.trans hversion.symm) hba.version_ne

/-- Nor has one hash two Acts. -/
theorem Certified.act_eq (hdumps : P.InjectiveOnJson) (hs : Certified P base s)
    (ht : Certified P base t) (hno : ¬Collision P s t) (ha : a ∈ s.acts) (hb : b ∈ t.acts)
    (hnew : a ∉ base) (hnew' : b ∉ base) (hhash : a.hash = b.hash) : a = b := by
  obtain ⟨canon, hcanon, hstored⟩ := (hs.rooted a ha hnew).act
  obtain ⟨canon', hcanon', hstored'⟩ := (ht.rooted b hb hnew').act
  rw [hhash] at hstored
  obtain ⟨rfl, -⟩ := Prod.mk.inj (hs.object_eq ht hno hstored hstored')
  exact Act.eq_of_sameJson (hdumps _ _ canon (canonicalize_ok hcanon) (canonicalize_ok hcanon'))
    hhash

/-- **What two databases agree on** up to an Act: history, and of the Acts that were added what
they are stored as, with their Commands, their Contexts and their payloads. -/
structure Agree (base before before' : List Act) (s t : Postgres) (a a' : Act) : Prop where
  last : a = a'
  earlier : before = before'
  objects : ∀ b ∈ before ++ [a], b ∉ base →
    ∀ x ∈ [b.hash, b.commandHash, b.contextHash, b.payloadHash],
      ∃ found, s.objects.get? x = some found ∧ t.objects.get? x = some found

/-- **One hash attests a whole history.** Two databases were started with the same Acts and
certify themselves. Where they have a hash in common, of Acts that were added, they agree up
to these Acts, or contain a collision between them. -/
theorem Certified.agree (hdumps : P.InjectiveOnJson) (hs : Certified P base s)
    (ht : Certified P base t) {before after before' after' : List Act} {a a' : Act}
    (hacts : s.acts = before ++ a :: after) (hacts' : t.acts = before' ++ a' :: after')
    (hbase : base <+: before) (hbase' : base <+: before') (hhash : a.hash = a'.hash) :
    Agree base before before' s t a a' ∨ Collision P s t := by
  by_cases hno : Collision P s t
  · exact Or.inr hno
  left
  obtain ⟨rfl, rfl⟩ := hs.commits.eq_of_key ht.commits (fun b hb c hc hnew hnew' hsame =>
    hs.act_eq hdumps ht hno hb hc hnew hnew' hsame) hacts hacts' hbase hbase' hhash
  refine ⟨rfl, rfl, fun b hb hnew x hx => ?_⟩
  have hmem : b ∈ s.acts := by
    rw [hacts, ← List.singleton_append, ← List.append_assoc]
    exact List.mem_append_left _ hb
  have hmem' : b ∈ t.acts := by
    rw [hacts', ← List.singleton_append, ← List.append_assoc]
    exact List.mem_append_left _ hb
  have hstored : ∀ {u : Postgres}, Rooted P u b → ∃ found, u.objects.get? x = some found := by
    intro u hroot
    simp only [List.mem_cons, List.not_mem_nil, or_false] at hx
    rcases hx with rfl | rfl | rfl | rfl
    · obtain ⟨canon, -, hstored⟩ := hroot.act
      exact ⟨_, hstored⟩
    · exact hroot.command.imp' (fun canon => (canon, "command")) fun _ => id
    · exact hroot.context.imp' (fun canon => (canon, "context")) fun _ => id
    · exact hroot.payload
  obtain ⟨found, hfound⟩ := hstored (hs.rooted b hmem hnew)
  obtain ⟨found', hfound'⟩ := hstored (ht.rooted b hmem' hnew)
  rw [hs.object_eq ht hno hfound hfound'] at hfound
  exact ⟨found', hfound, hfound'⟩

end Postgres

end PowerfarmKernel
