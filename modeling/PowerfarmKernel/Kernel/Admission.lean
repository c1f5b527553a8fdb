import PowerfarmKernel.Kernel.Checks

/-!
# What a commit does to the in-memory ledger

One call of the gate has a dozen ways out. Seen from the state it leaves, there are
three (`PowerfarmKernel.CommitGate.commit_cases`):

* it raises, and history is as it was – objects may have been added
  (`PowerfarmKernel.MemoryLedger.SameHistory`);
* it returns an Act that already held its place, and nothing changed;
* it admits a new Act, at the end of history, and then everything the gate checks
  held of the state before the call: `PowerfarmKernel.Admission` lists it.

Every invariant of the ledger is derived from these three cases; no later proof looks
at the body of the gate again.
-/

namespace PowerfarmKernel

open Prog LedgerM

variable {P : Primitives} {known : MemoryLedger → String → String → Cut → Bool}

/-! ### The admission of an Act -/

/-- **Everything the gate has checked of the state before it admits an Act.** -/
structure Admission (P : Primitives) (known : MemoryLedger → String → String → Cut → Bool)
    (s : MemoryLedger) (c : Submission) (a : Act) : Prop where
  signer : c.identity.hash = c.command.identityHash
  verified : c.command.verifies P c.identity = true
  commandHash : c.command.hash P = .ok a.commandHash
  contextHash : c.context.hash P = .ok a.contextHash
  hash : objectHash P "act" (CommitGate.actValue c a.commandHash a.contextHash) = .ok a.hash
  act_eq : a = CommitGate.actOf c a.hash a.commandHash a.contextHash
  fresh : s.acts.get? a.hash = none
  permitted : c.decision.outcome ∈ permittedOutcomes c.actType
  unsettled : c.actType ∉ lifecycleActTypes →
    ∃ owned, s.getActsForCommand a.commandHash = .ok owned ∧
      ∀ b ∈ owned, b.actType ∈ lifecycleActTypes
  structural : StructuralProof P s.toMemoryStore c.command a.commandHash c.actType c.authChain
  cut : c.decision.cut = s.historyCut
  commandTyped : known s "command_type" c.command.commandType c.decision.registryCut = true
  actTyped : known s "act_type" c.actType c.decision.registryCut = true
  ruled : c.decision.ruleHashes ≠ []
  rulesKnown : ∀ h ∈ c.decision.ruleHashes, known s "rule" h c.decision.registryCut = true
  keysKnown : ∀ k ∈ c.context.values.keys,
    known s "context_type" k c.decision.registryCut = true
  payload : (s.objects.get? c.command.payloadHash).isSome
  parents : ∀ p ∈ c.command.parents, (s.acts.get? p).isSome

namespace Admission

variable {s : MemoryLedger} {c : Submission} {a : Act}

/-- What an admission has checked, but for the signature and the place. -/
theorem checked (h : Admission P known s c a) :
    Checked P known s c a.commandHash a.contextHash where
  permitted := h.permitted
  commandHashed := h.commandHash
  contextHashed := h.contextHash
  unsettled := h.unsettled
  structural := h.structural
  cut := h.cut
  commandTyped := h.commandTyped
  actTyped := h.actTyped
  ruled := h.ruled
  rulesKnown := h.rulesKnown
  keysKnown := h.keysKnown
  payload := h.payload
  parents := h.parents

/-- **A signed call whose checks pass is an admission**, of the Act it asks for. -/
theorem of_checked {actHash commandHash contextHash : Hash}
    (h : Checked P known s c commandHash contextHash)
    (hsigner : c.identity.hash = c.command.identityHash)
    (hverified : c.command.verifies P c.identity = true)
    (hhash : objectHash P "act" (CommitGate.actValue c commandHash contextHash) = .ok actHash)
    (hfresh : s.acts.get? actHash = none) :
    Admission P known s c (CommitGate.actOf c actHash commandHash contextHash) where
  signer := hsigner
  verified := hverified
  commandHash := h.commandHashed
  contextHash := h.contextHashed
  hash := hhash
  act_eq := rfl
  fresh := hfresh
  permitted := h.permitted
  unsettled := h.unsettled
  structural := h.structural
  cut := h.cut
  commandTyped := h.commandTyped
  actTyped := h.actTyped
  ruled := h.ruled
  rulesKnown := h.rulesKnown
  keysKnown := h.keysKnown
  payload := h.payload
  parents := h.parents

/-- **One call asks for one Act.** -/
theorem unique {b : Act} (h : Admission P known s c a) (h' : Admission P known s c b) : a = b := by
  have hcommand : a.commandHash = b.commandHash :=
    Except.ok.inj (h.commandHash.symm.trans h'.commandHash)
  have hcontext : a.contextHash = b.contextHash :=
    Except.ok.inj (h.contextHash.symm.trans h'.contextHash)
  have hhash := h.hash
  rw [hcommand, hcontext] at hhash
  rw [h.act_eq, h'.act_eq, hcommand, hcontext, Except.ok.inj (hhash.symm.trans h'.hash)]

theorem actType (h : Admission P known s c a) : a.actType = c.actType := by rw [h.act_eq]; rfl

theorem identityHash (h : Admission P known s c a) : a.identityHash = c.identity.hash := by
  rw [h.act_eq]; rfl

theorem authChain (h : Admission P known s c a) : a.authChain = c.authChain := by
  rw [h.act_eq]; rfl

theorem act_cut (h : Admission P known s c a) : a.decisionCut = c.decision.cut := by
  rw [h.act_eq]; rfl

theorem registryCut (h : Admission P known s c a) : a.registryCut = c.decision.registryCut := by
  rw [h.act_eq]; rfl

theorem ruleHashes (h : Admission P known s c a) : a.ruleHashes = c.decision.ruleHashes := by
  rw [h.act_eq]; rfl

theorem decisionCut (h : Admission P known s c a) : a.decisionCut = s.historyCut := by
  rw [h.act_cut]; exact h.cut

theorem act_parents (h : Admission P known s c a) : a.parents = c.command.parents := by
  rw [h.act_eq]; rfl

theorem payloadHash (h : Admission P known s c a) : a.payloadHash = c.command.payloadHash := by
  rw [h.act_eq]; rfl

end Admission

/-- **The ledger after an admission**: the Act at the end of history and of its
Command's index, its three objects stored, and everything else kept. -/
structure Placed (P : Primitives) (s t : MemoryLedger) (c : Submission) (a : Act) : Prop where
  acts : t.acts = s.acts.set a.hash a
  commandIndex : t.commandIndex = s.commandIndex.set a.commandHash
    ((s.commandIndex.get? a.commandHash).getD [] ++ [a.hash])
  registry : t.registry = s.registry
  identities : t.identities = s.identities
  principalBindings : t.principalBindings = s.principalBindings
  registryMetadata : t.registryMetadata = s.registryMetadata
  objects : s.objects ≤ t.objects
  commandObject : ∃ canon, canonicalize P c.command.signingValue = .ok canon ∧
    t.objects.get? a.commandHash = some (canon, "command")
  contextObject : ∃ canon, canonicalize P c.context.canonicalValue = .ok canon ∧
    t.objects.get? a.contextHash = some (canon, "context")
  actObject : ∃ canon,
    canonicalize P (CommitGate.actValue c a.commandHash a.contextHash) = .ok canon ∧
      t.objects.get? a.hash = some (canon, "act")

/-- **The Acts after an admission**: the Acts before it, and the new one. -/
theorem Placed.get?_iff {s t : MemoryLedger} {c : Submission} {a b : Act} {k : Hash}
    (h : Placed P s t c a) (hfresh : s.acts.get? a.hash = none) :
    t.acts.get? k = some b ↔ (k = a.hash ∧ b = a) ∨ s.acts.get? k = some b := by
  rw [h.acts, Dict.get?_set]
  by_cases hk : k = a.hash
  · subst hk
    rw [if_pos rfl, hfresh]
    simp [eq_comm]
  · simp [hk]

section Cases

variable {s t : MemoryLedger} {c : Submission} {a : Act} {value : CanonValue}
  {actHash commandHash contextHash : Hash}

/-- Storing an object, as an operation of the ledger. -/
theorem run_putObject_ok {h : Hash} {canon : Bytes} {kind : String} {x : Unit}
    (hrun : (putObject h canon kind).run (MemoryLedger.handle known) s = (.ok x, t)) :
    t = { s with objects := s.objects.set h (canon, kind) } ∧ s.objects ≤ t.objects := by
  rw [MemoryLedger.run_putObject] at hrun
  rcases hput : s.putObject h canon kind with ⟨r, u⟩
  rw [hput, MemoryLedger.lift] at hrun
  obtain ⟨hr, rfl⟩ := Prod.mk.inj hrun
  rcases MemoryStore.putObject_cases hput with ⟨⟨e, rfl⟩, -⟩ | ⟨-, rfl, hle⟩
  · cases hr
  · exact ⟨rfl, hle⟩

/-- The commit of an Act that holds no place yet, as an operation of the ledger. -/
theorem run_commitAct_of_fresh {canon : Bytes} {commandType : String} {r : Except Raised Act}
    (hfresh : s.acts.get? a.hash = none)
    (hrun : (commitAct a canon commandType).run (MemoryLedger.handle known) s = (r, t)) :
    (∃ e, r = .error e ∧ t = s) ∨
      (r = .ok a ∧ t = s.withAct a canon ∧ s.objects ≤ t.objects) := by
  rw [MemoryLedger.run_commitAct] at hrun
  rcases hcommit : s.commitAct a canon with ⟨r', u⟩
  rw [hcommit, MemoryLedger.lift] at hrun
  obtain ⟨rfl, rfl⟩ := Prod.mk.inj hrun
  rcases MemoryStore.commitAct_cases hcommit with
    ⟨existing, hex, -, -⟩ | ⟨⟨e, rfl⟩, rfl⟩ | ⟨-, rfl, rfl, hle⟩
  · rw [hfresh] at hex
    cases hex
  · exact Or.inl ⟨e, rfl, rfl⟩
  · exact Or.inr ⟨rfl, rfl, hle⟩

/-- **The writes of the gate**, when they all succeed. -/
theorem run_write_ok (hfresh : s.acts.get? actHash = none)
    (hrun : (CommitGate.write P c (CommitGate.actValue c commandHash contextHash) actHash
      commandHash contextHash).run (MemoryLedger.handle known) s = (.ok a, t)) :
    a = CommitGate.actOf c actHash commandHash contextHash ∧ Placed P s t c a := by
  simp only [CommitGate.write, run_bind_ok, run_ofExcept_ok, run_mapError] at hrun
  obtain ⟨commandCanon, _, ⟨hcommand, rfl⟩, _, s₁, hput₁, contextCanon, _, ⟨hcontext, rfl⟩,
    _, s₂, hput₂, hlast⟩ := hrun
  obtain ⟨rfl, hle₁⟩ := run_putObject_ok hput₁
  obtain ⟨rfl, hle₂⟩ := run_putObject_ok hput₂
  -- From here on, errors are turned into the error of the gate.
  rcases hcanon : canonicalize P (CommitGate.actValue c commandHash contextHash) with e | canon
  · simp [hcanon, run_bind, Except.mapError] at hlast
  · rw [hcanon, run_bind, run_ofExcept] at hlast
    dsimp only at hlast
    rcases hrun : (commitAct (CommitGate.actOf c actHash commandHash contextHash) canon
        c.command.commandType).run (MemoryLedger.handle known) _ with ⟨r, u⟩
    rw [hrun] at hlast
    rcases run_commitAct_of_fresh hfresh hrun with ⟨e, rfl, -⟩ | ⟨rfl, rfl, hle₃⟩
    · cases hlast
    · cases hlast
      exact ⟨rfl, {
        acts := rfl
        commandIndex := rfl
        registry := rfl
        identities := rfl
        principalBindings := rfl
        registryMetadata := rfl
        objects := (hle₁.trans hle₂).trans hle₃
        commandObject := ⟨commandCanon, hcommand, hle₃ _ _ (hle₂ _ _ Dict.get?_set_self)⟩
        contextObject := ⟨contextCanon, hcontext, hle₃ _ _ Dict.get?_set_self⟩
        actObject := ⟨canon, hcanon, Dict.get?_set_self⟩ }⟩

/-! ### When the gate returns -/

/-- **When the body of the gate returns**, every check it makes has passed, and the Act
has taken its place. -/
theorem run_commitFresh_ok (hsigner : c.identity.hash = c.command.identityHash)
    (hverified : c.command.verifies P c.identity = true)
    (hvalue : CommitGate.canonicalValue P c = .ok value)
    (hhash : objectHash P "act" value = .ok actHash) (hfresh : s.acts.get? actHash = none)
    (hrun : (CommitGate.commitFresh P c value actHash).run (MemoryLedger.handle known) s
      = (.ok a, t)) :
    Admission P known s c a ∧ Placed P s t c a := by
  rw [CommitGate.commitFresh_eq] at hrun
  obtain ⟨hashes, _, hchecks, hwrite⟩ := run_bind_ok.mp hrun
  obtain ⟨rfl, hchecked⟩ := run_checks_ok.mp hchecks
  -- The form that was hashed is the one with these two hashes in it.
  have hvalue' : CommitGate.actValue c hashes.1 hashes.2 = value := by
    rw [CommitGate.canonicalValue, hchecked.commandHashed, hchecked.contextHashed] at hvalue
    exact Except.ok.inj hvalue
  subst hvalue'
  obtain ⟨rfl, hplaced⟩ := run_write_ok hfresh hwrite
  exact ⟨.of_checked hchecked hsigner hverified hhash hfresh, hplaced⟩

/-- Where the Act holds no place yet, whatever raises has added objects at most. -/
def FreshKeeps (actHash : Hash) (s t : MemoryLedger) : Prop :=
  s.acts.get? actHash = none → MemoryLedger.SameHistory s t

theorem FreshKeeps.refl (s : MemoryLedger) : FreshKeeps actHash s s :=
  fun _ => MemoryLedger.SameHistory.refl s

theorem FreshKeeps.trans {u : MemoryLedger} (h : FreshKeeps actHash s t)
    (h' : FreshKeeps actHash t u) : FreshKeeps actHash s u := by
  intro hfresh
  have hsame := h hfresh
  exact hsame.trans (h' (by rw [hsame.acts]; exact hfresh))

theorem freshKeeps_isPlain (o : LedgerOp) (ho : o.IsPlain) (s : MemoryLedger) :
    FreshKeeps actHash s (MemoryLedger.handle known o s).2 :=
  fun _ => MemoryLedger.handle_isPlain ho s

/-- One step of a program that raises later: operations that admit nothing. -/
theorem raisesKeep_bind {α β : Type} {p : LedgerM α} {f : α → LedgerM β}
    (hp : p.Only LedgerOp.IsPlain)
    (hf : ∀ a, RaisesKeep (MemoryLedger.handle known) (FreshKeeps actHash) (f a)) :
    RaisesKeep (MemoryLedger.handle known) (FreshKeeps actHash) (p >>= f) :=
  RaisesKeep.bind FreshKeeps.refl FreshKeeps.trans freshKeeps_isPlain hp hf

/-- The gate's writes, when they raise, have added objects at most. -/
theorem raisesKeep_write : RaisesKeep (MemoryLedger.handle known) (FreshKeeps actHash)
    (CommitGate.write P c value actHash commandHash contextHash) := by
  refine raisesKeep_bind (.ofExcept _) fun _ => raisesKeep_bind (.call trivial) fun _ =>
    raisesKeep_bind (.ofExcept _) fun _ => raisesKeep_bind (.call trivial) fun _ => ?_
  refine RaisesKeep.mapError (raisesKeep_bind (.ofExcept _) fun canon => ?_) _
  intro s e t hrun hfresh
  rcases run_commitAct_of_fresh hfresh hrun with ⟨_, -, rfl⟩ | ⟨hok, -, -⟩
  · exact MemoryLedger.SameHistory.refl _
  · cases hok

/-- The body of the gate, when it raises, has added objects at most. -/
theorem raisesKeep_commitFresh : RaisesKeep (MemoryLedger.handle known) (FreshKeeps actHash)
    (CommitGate.commitFresh P c value actHash) := by
  rw [CommitGate.commitFresh_eq]
  exact raisesKeep_bind (CommitGate.only_checks.mono fun _ ho => ho.isRead.isPlain)
    fun _ => raisesKeep_write

/-! ### One call -/

/-- The Act hash a call asks for. -/
def Submission.occurrence (P : Primitives) (c : Submission) : Except Raised Hash :=
  match CommitGate.canonicalValue P c with
  | .error e => .error e
  | .ok value => objectHash P "act" value

/-- **One call of the gate.** It raises and admits nothing; or it returns the Act that
already holds the place it asks for, and changes nothing; or it admits a new Act. -/
theorem CommitGate.commit_cases {r : Except Raised Act}
    (hrun : (CommitGate.commit P c).run (MemoryLedger.handle known) s = (r, t)) :
    (∃ e, r = .error e ∧ MemoryLedger.SameHistory s t) ∨
      (∃ a k, r = .ok a ∧ c.occurrence P = .ok k ∧ s.acts.get? k = some a ∧ t = s) ∨
      ∃ a, r = .ok a ∧ Admission P known s c a ∧ Placed P s t c a := by
  have refused : ∀ {e : Raised}, ((Except.error e : Except Raised Act), s) = (r, t) →
      ∃ e, r = .error e ∧ MemoryLedger.SameHistory s t := by
    intro e heq
    cases heq
    exact ⟨e, rfl, MemoryLedger.SameHistory.refl s⟩
  rw [CommitGate.commit, run_bind, run_raiseWhen] at hrun
  by_cases hsigner : c.identity.hash ≠ c.command.identityHash
  · rw [if_pos hsigner] at hrun
    exact Or.inl (refused hrun)
  rw [if_neg hsigner] at hrun
  dsimp only at hrun
  rw [run_bind, run_raiseWhen] at hrun
  by_cases hverified : c.command.verifies P c.identity = false
  · rw [if_pos hverified] at hrun
    exact Or.inl (refused hrun)
  rw [if_neg hverified] at hrun
  dsimp only at hrun
  rw [run_bind, run_ofExcept] at hrun
  rcases hvalue : CommitGate.canonicalValue P c with e | value
  · rw [hvalue] at hrun
    exact Or.inl (refused hrun)
  rw [hvalue] at hrun
  dsimp only at hrun
  rw [run_bind, run_ofExcept] at hrun
  rcases hhash : objectHash P "act" value with e | k
  · rw [hhash] at hrun
    exact Or.inl (refused hrun)
  rw [hhash] at hrun
  dsimp only at hrun
  rw [run_bind, MemoryLedger.run_getAct] at hrun
  rcases hexisting : s.acts.get? k with _ | existing
  · rw [hexisting] at hrun
    change (CommitGate.commitFresh P c value k).run _ s = (r, t) at hrun
    rcases r with e | a
    · exact Or.inl ⟨e, rfl, raisesKeep_commitFresh s e t hrun hexisting⟩
    · exact Or.inr (Or.inr ⟨a, rfl, run_commitFresh_ok (not_not.mp hsigner)
        (eq_true_of_ne_false hverified) hvalue hhash hexisting hrun⟩)
  · -- The occurrence holds its place: it is returned, and nothing else is looked at.
    rw [hexisting] at hrun
    cases hrun
    exact Or.inr (Or.inl ⟨existing, k, rfl, by rw [Submission.occurrence, hvalue]; exact hhash,
      hexisting, rfl⟩)

end Cases

end PowerfarmKernel
