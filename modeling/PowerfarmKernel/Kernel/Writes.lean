import PowerfarmKernel.Lib.WriteOnce
import PowerfarmKernel.Kernel.Admission

/-!
# What the gate writes

After its checks the gate stores three objects and places the Act: the Command, the
Context and the canonical Act (`PowerfarmKernel.CommitGate.writes`), each refused where
content-addressed storage holds something else under its hash. What it stored before a
refusal stays (`PowerfarmKernel.CommitGate.run_write`).

With `PowerfarmKernel.CommitGate.run_commit_of_admission` and
`PowerfarmKernel.CommitGate.run_commit_refused`, this says of every call of the gate what
ledger it leaves, raising or not.
-/

namespace PowerfarmKernel

open Prog LedgerM

variable {P : Primitives} {known : MemoryLedger → String → String → Cut → Bool}
  {s t : MemoryLedger} {c : Submission} {a : Act}

/-! ### One write -/

/-- The ledger with one more object. -/
def MemoryLedger.withObject (s : MemoryLedger) (h : Hash) (canon : Bytes) (kind : String) :
    MemoryLedger :=
  { s with objects := s.objects.set h (canon, kind) }

section One

variable {h : Hash} {canon : Bytes} {kind commandType : String}

/-- Storing an object is refused when the hash stands for something else. -/
theorem run_putObject_of_clashes (hclash : s.objects.Clashes h (canon, kind)) :
    (putObject h canon kind).run (MemoryLedger.handle known) s
      = (.error (valueError "CAS collision"), s) := by
  have hold : s.objects.get? h ≠ none ∧ s.objects.get? h ≠ some (canon, kind) := hclash
  rw [MemoryLedger.run_putObject, MemoryStore.putObject, if_pos hold]
  rfl

theorem run_putObject_of_not_clashes (hclash : ¬s.objects.Clashes h (canon, kind)) :
    (putObject h canon kind).run (MemoryLedger.handle known) s
      = (.ok (), s.withObject h canon kind) := by
  have hold : ¬(s.objects.get? h ≠ none ∧ s.objects.get? h ≠ some (canon, kind)) := hclash
  rw [MemoryLedger.run_putObject, MemoryStore.putObject, if_neg hold]
  rfl

/-- Placing an Act that holds no place is refused when its hash stands for something
else. -/
theorem run_commitAct_of_clashes (hfresh : s.acts.get? a.hash = none)
    (hclash : s.objects.Clashes a.hash (canon, "act")) :
    (commitAct a canon commandType).run (MemoryLedger.handle known) s
      = (.error (valueError "CAS collision"), s) := by
  have hold : s.objects.get? a.hash ≠ none ∧ s.objects.get? a.hash ≠ some (canon, "act") := hclash
  rw [MemoryLedger.run_commitAct, MemoryStore.commitAct, hfresh]
  dsimp only
  rw [if_pos hold]
  rfl

theorem run_commitAct_of_not_clashes (hfresh : s.acts.get? a.hash = none)
    (hclash : ¬s.objects.Clashes a.hash (canon, "act")) :
    (commitAct a canon commandType).run (MemoryLedger.handle known) s
      = (.ok a, s.withAct a canon) := by
  have hold : ¬(s.objects.get? a.hash ≠ none ∧ s.objects.get? a.hash ≠ some (canon, "act")) :=
    hclash
  have happend : a.hash ∉ s.acts.keys := Dict.get?_eq_none_iff.mp hfresh
  rw [MemoryLedger.run_commitAct, MemoryStore.commitAct, hfresh]
  dsimp only
  rw [if_neg hold, MemoryStore.appendAct, if_neg happend]
  rfl

end One

/-! ### The writes of an admission -/

/-- The canonical form of a value that has one. -/
def canonBytes (P : Primitives) (value : CanonValue) : Bytes :=
  match canonicalize P value with
  | .ok canon => canon
  | .error _ => []

/-- What has a hash has a canonical form. -/
theorem canonicalize_of_objectHash {kind : String} {value : CanonValue} {h : Hash}
    (hhash : objectHash P kind value = .ok h) :
    canonicalize P value = .ok (canonBytes P value) := by
  rw [objectHash, objectHashAt] at hhash
  split at hhash
  · cases hhash
  · rw [canonBytes]
    rcases hcanon : canonicalize P value with e | canon
    · rw [hcanon] at hhash
      cases hhash
    · rfl

namespace CommitGate

/-- **The objects an admission stores**, in the order in which it stores them. -/
def writes (P : Primitives) (c : Submission) (a : Act) : List (Hash × (Bytes × String)) :=
  [(a.commandHash, (canonBytes P c.command.signingValue, "command")),
    (a.contextHash, (canonBytes P c.context.canonicalValue, "context")),
    (a.hash, (canonBytes P (actValue c a.commandHash a.contextHash), "act"))]

/-- The ledger after an Act has taken its place, its objects given. -/
def placed (s : MemoryLedger) (a : Act) (objects : Dict Hash (Bytes × String)) : MemoryLedger :=
  { s with
    objects := objects
    acts := s.acts.set a.hash a
    commandIndex := s.commandIndex.set a.commandHash
      ((s.commandIndex.get? a.commandHash).getD [] ++ [a.hash]) }

/-- The ledger once the Command and the Context of an admission are stored. -/
def prepared (P : Primitives) (s : MemoryLedger) (c : Submission) (a : Act) : MemoryLedger :=
  (s.withObject a.commandHash (canonBytes P c.command.signingValue) "command").withObject
    a.contextHash (canonBytes P c.context.canonicalValue) "context"

/-- The writes of the gate, with the canonical forms they store. -/
theorem write_eq (h : Admission P known s c a) :
    write P c (actValue c a.commandHash a.contextHash) a.hash a.commandHash a.contextHash
      = putObject a.commandHash (canonBytes P c.command.signingValue) "command" >>= fun _ =>
        putObject a.contextHash (canonBytes P c.context.canonicalValue) "context" >>= fun _ =>
        Prog.mapError (fun _ => commitError "store rejected Act")
          (commitAct a (canonBytes P (actValue c a.commandHash a.contextHash))
            c.command.commandType) := by
  rw [write, canonicalize_of_objectHash h.commandHash, canonicalize_of_objectHash h.contextHash,
    canonicalize_of_objectHash h.hash, ← h.act_eq]
  rfl

/-- **The writes of the gate when none is refused**: the objects are stored and the Act is
placed. -/
theorem run_write_of_not_refused (h : Admission P known s c a)
    (hwrites : ¬s.objects.Refused (writes P c a)) :
    (write P c (actValue c a.commandHash a.contextHash) a.hash a.commandHash
        a.contextHash).run (MemoryLedger.handle known) s
      = (.ok a, placed s a (s.objects.putAll (writes P c a)).2) := by
  obtain ⟨hcommand, hrest⟩ := not_or.mp hwrites
  obtain ⟨hcontext, hrest⟩ := not_or.mp hrest
  obtain ⟨hlast, -⟩ := not_or.mp hrest
  have hact : ¬(prepared P s c a).objects.Clashes a.hash
      (canonBytes P (actValue c a.commandHash a.contextHash), "act") := hlast
  have hfresh : (prepared P s c a).acts.get? a.hash = none := h.fresh
  rw [write_eq h, run_bind_of_eq (run_putObject_of_not_clashes hcommand),
    run_bind_of_eq (run_putObject_of_not_clashes hcontext), run_mapError]
  change (((commitAct a _ _).run (MemoryLedger.handle known) (prepared P s c a)).1.mapError _,
    ((commitAct a _ _).run (MemoryLedger.handle known) (prepared P s c a)).2) = _
  rw [run_commitAct_of_not_clashes hfresh hact]
  simp only [writes, Dict.putAll, if_neg hcommand, if_neg hcontext, if_neg hlast]
  rfl

/-- **The writes of the gate when one is refused**: it raises, and the objects before it
stay. -/
theorem run_write_of_refused (h : Admission P known s c a)
    (hwrites : s.objects.Refused (writes P c a)) :
    ∃ e, (write P c (actValue c a.commandHash a.contextHash) a.hash a.commandHash
        a.contextHash).run (MemoryLedger.handle known) s
      = (.error e, { s with objects := (s.objects.putAll (writes P c a)).2 }) := by
  rw [write_eq h]
  simp only [writes, Dict.putAll]
  -- The Command is put first, then the Context, and the Act comes last.
  by_cases hcommand : s.objects.Clashes a.commandHash
      (canonBytes P c.command.signingValue, "command")
  · rw [if_pos hcommand]
    exact ⟨_, by rw [run_bind, run_putObject_of_clashes hcommand]⟩
  rw [if_neg hcommand, run_bind_of_eq (run_putObject_of_not_clashes hcommand)]
  have hrest := hwrites.resolve_left hcommand
  by_cases hcontext : (s.objects.set a.commandHash
      (canonBytes P c.command.signingValue, "command")).Clashes a.contextHash
        (canonBytes P c.context.canonicalValue, "context")
  · rw [if_pos hcontext]
    exact ⟨_, by rw [run_bind, run_putObject_of_clashes hcontext]; rfl⟩
  rw [if_neg hcontext, run_bind_of_eq (run_putObject_of_not_clashes hcontext), run_mapError]
  have hlast := (hrest.resolve_left hcontext).resolve_right id
  have hact : (prepared P s c a).objects.Clashes a.hash
      (canonBytes P (actValue c a.commandHash a.contextHash), "act") := hlast
  have hfresh : (prepared P s c a).acts.get? a.hash = none := h.fresh
  change ∃ e, (((commitAct a _ _).run (MemoryLedger.handle known) (prepared P s c a)).1.mapError _,
    ((commitAct a _ _).run (MemoryLedger.handle known) (prepared P s c a)).2) = _
  rw [run_commitAct_of_clashes hfresh hact]
  simp only [if_pos hlast]
  exact ⟨_, rfl⟩

/-! ### A whole call -/

/-- **The gate up to its writes**: it finds the Act that holds the place already, or the Act
to write, by its hashed form and its three hashes. -/
def head (P : Primitives) (c : Submission) : LedgerM (Act ⊕ CanonValue × Hash × Hash × Hash) := do
  raiseWhen (c.identity.hash ≠ c.command.identityHash) (commitError "identity mismatch")
  raiseWhen (c.command.verifies P c.identity = false) (commitError "invalid command signature")
  let value ← ofExcept (canonicalValue P c)
  let actHash ← ofExcept (objectHash P "act" value)
  let existing ← getAct actHash
  match existing with
  | some act => return .inl act
  | none => do
      let hashes ← checks P c
      return .inr (value, actHash, hashes)

/-- What the gate does once it has found which. -/
def tail (P : Primitives) (c : Submission) : Act ⊕ CanonValue × Hash × Hash × Hash → LedgerM Act
  | .inl act => pure act
  | .inr (value, actHash, commandHash, contextHash) =>
      write P c value actHash commandHash contextHash

/-- **The gate is its head, and then its writes.** -/
theorem commit_eq : commit P c = head P c >>= tail P c := by
  simp only [commit, head, LawfulMonad.bind_assoc]
  congr
  funext _
  congr
  funext _
  congr
  funext value
  congr
  funext actHash
  congr
  funext existing
  rcases existing with _ | act
  · simp only [commitFresh_eq, LawfulMonad.bind_assoc, pure_bind]
    rfl
  · rfl

/-- The head of the gate reads only. -/
theorem only_head : (head P c).Only LedgerOp.IsGateRead := by
  refine .bind (.raiseWhen _ _) fun _ => .bind (.raiseWhen _ _) fun _ => ?_
  refine .bind (.ofExcept _) fun value => .bind (.ofExcept _) fun actHash => ?_
  refine .bind (.call trivial) fun existing => ?_
  rcases existing with _ | act
  · exact .bind only_checks fun _ => .pure _
  · exact .pure _

/-- **A replay**: the call is signed, and the Act it asks for holds its place already. -/
structure Replays (P : Primitives) (s : MemoryLedger) (c : Submission) (a : Act) : Prop where
  signer : c.identity.hash = c.command.identityHash
  verified : c.command.verifies P c.identity = true
  held : ∃ k, c.occurrence P = .ok k ∧ s.acts.get? k = some a

/-- A replay is not an admission. -/
theorem Replays.not_admission {b : Act} (h : Replays P s c a) : ¬Admission P known s c b := by
  intro hadm
  obtain ⟨k, hocc, hget⟩ := h.held
  rw [Submission.occurrence, canonicalValue, hadm.commandHash, hadm.contextHash] at hocc
  obtain rfl : b.hash = k := Except.ok.inj (hadm.hash.symm.trans hocc)
  rw [hadm.fresh] at hget
  cases hget

/-- The place a call asks for, by the value it is the hash of. -/
theorem occurrence_ok_iff {k : Hash} : c.occurrence P = .ok k ↔
    ∃ value, canonicalValue P c = .ok value ∧ objectHash P "act" value = .ok k := by
  rw [Submission.occurrence]
  rcases canonicalValue P c with e | value
  · simp
  · simp

/-- **The head of the gate finds the Act of a replay**, and of nothing else. -/
theorem run_head_inl : (head P c).run (MemoryLedger.handle known) s = (.ok (.inl a), t) ↔
    t = s ∧ Replays P s c a := by
  rw [head, run_raiseWhen_bind_ok, run_raiseWhen_bind_ok]
  simp only [run_ofExcept_bind_ok]
  constructor
  · rintro ⟨hsigner, hverified, value, hvalue, k, hhash, hrun⟩
    rw [run_bind_of_eq MemoryLedger.run_getAct] at hrun
    rcases hget : s.acts.get? k with _ | b
    · rw [hget] at hrun
      obtain ⟨_, _, -, hrun⟩ := run_bind_ok.mp hrun
      cases hrun
    · rw [hget] at hrun
      cases hrun
      exact ⟨rfl, not_not.mp hsigner, eq_true_of_ne_false hverified, k,
        occurrence_ok_iff.mpr ⟨value, hvalue, hhash⟩, hget⟩
  · rintro ⟨rfl, h⟩
    obtain ⟨k, hocc, hget⟩ := h.held
    obtain ⟨value, hvalue, hhash⟩ := occurrence_ok_iff.mp hocc
    refine ⟨not_not.mpr h.signer, ne_false_of_eq_true h.verified, value, hvalue, k, hhash, ?_⟩
    rw [run_bind_of_eq MemoryLedger.run_getAct, hget]
    rfl

/-- **The head of the gate finds the Act of an admission**, and of nothing else. -/
theorem run_head_inr {value : CanonValue} {k commandHash contextHash : Hash} :
    (head P c).run (MemoryLedger.handle known) s
        = (.ok (.inr (value, k, commandHash, contextHash)), t) ↔
      t = s ∧ value = actValue c commandHash contextHash ∧
        Admission P known s c (actOf c k commandHash contextHash) := by
  rw [head, run_raiseWhen_bind_ok, run_raiseWhen_bind_ok]
  simp only [run_ofExcept_bind_ok]
  constructor
  · rintro ⟨hsigner, hverified, v, hv, k', hhash, hrun⟩
    rw [run_bind_of_eq MemoryLedger.run_getAct] at hrun
    rcases hget : s.acts.get? k' with _ | b
    · -- The place is free, so the checks were run.
      rw [hget] at hrun
      dsimp only at hrun
      obtain ⟨hashes, u, hchecks, hfound⟩ := run_bind_ok.mp hrun
      obtain ⟨rfl, hchecked⟩ := run_checks_ok.mp hchecks
      cases hfound
      rw [canonicalValue, hchecked.commandHashed, hchecked.contextHashed] at hv
      obtain rfl := Except.ok.inj hv
      exact ⟨rfl, rfl, .of_checked hchecked (not_not.mp hsigner) (eq_true_of_ne_false hverified)
        hhash hget⟩
    · rw [hget] at hrun
      cases hrun
  · rintro ⟨rfl, rfl, h⟩
    have hcommand : c.command.hash P = .ok commandHash := h.commandHash
    have hcontext : c.context.hash P = .ok contextHash := h.contextHash
    refine ⟨not_not.mpr h.signer, ne_false_of_eq_true h.verified,
      actValue c commandHash contextHash, ?_, k, h.hash, ?_⟩
    · rw [canonicalValue, hcommand, hcontext]
    · have hfresh : t.acts.get? k = none := h.fresh
      have hchecks : (checks P c).run (MemoryLedger.handle known) t
          = (.ok (commandHash, contextHash), t) := run_checks_ok.mpr ⟨rfl, h.checked⟩
      rw [run_bind_of_eq MemoryLedger.run_getAct, hfresh]
      dsimp only
      rw [run_bind_of_eq hchecks]
      rfl

/-- **An admission is the writes of the gate.** -/
theorem run_commit_of_admission (h : Admission P known s c a) :
    (commit P c).run (MemoryLedger.handle known) s
      = (write P c (actValue c a.commandHash a.contextHash) a.hash a.commandHash
          a.contextHash).run (MemoryLedger.handle known) s := by
  have hadm : Admission P known s c (actOf c a.hash a.commandHash a.contextHash) := by
    rw [← h.act_eq]
    exact h
  rw [commit_eq, run_bind_of_eq (run_head_inr.mpr ⟨rfl, rfl, hadm⟩)]
  rfl

/-- **A replay is answered with the Act that stands**, and nothing is written. -/
theorem run_commit_of_replays (h : Replays P s c a) :
    (commit P c).run (MemoryLedger.handle known) s = (.ok a, s) := by
  rw [commit_eq, run_bind_of_eq (run_head_inl.mpr ⟨rfl, h⟩)]
  rfl

/-- **A call that is neither a replay nor an admission raises**, and writes nothing. -/
theorem run_commit_refused (hreplay : ∀ a, ¬Replays P s c a)
    (hadm : ∀ a, ¬Admission P known s c a) :
    ∃ e, (commit P c).run (MemoryLedger.handle known) s = (.error e, s) := by
  rw [commit_eq, run_bind]
  rcases hhead : (head P c).run (MemoryLedger.handle known) s with ⟨e | b | found, t⟩
  · have ht : t = s := (only_head.mono fun _ => LedgerOp.IsGateRead.isRead).run_eq
      (fun _ ho s => MemoryLedger.handle_isRead ho s) hhead
    rw [ht]
    exact ⟨e, rfl⟩
  · exact absurd (run_head_inl.mp hhead).2 (hreplay b)
  · exact absurd (run_head_inr.mp hhead).2.2 (hadm _)

/-- **When a call of the gate raises**: it is no replay, and if it is an admission one of its
writes is refused. -/
theorem raises_iff :
    (∃ e, ((commit P c).run (MemoryLedger.handle known) s).1 = .error e) ↔
      (∀ a, ¬Replays P s c a) ∧
        ∀ a, Admission P known s c a → s.objects.Refused (writes P c a) := by
  constructor
  · rintro ⟨e, herr⟩
    refine ⟨fun a hreplay => ?_, fun a hadm => ?_⟩
    · rw [run_commit_of_replays hreplay] at herr
      cases herr
    · by_contra hwrites
      rw [run_commit_of_admission hadm, run_write_of_not_refused hadm hwrites] at herr
      cases herr
  · rintro ⟨hreplay, hrefused⟩
    by_cases hadm : ∃ a, Admission P known s c a
    · obtain ⟨a, hadm⟩ := hadm
      obtain ⟨e, hrun⟩ := run_write_of_refused hadm (hrefused a hadm)
      exact ⟨e, by rw [run_commit_of_admission hadm, hrun]⟩
    · obtain ⟨e, hrun⟩ := run_commit_refused hreplay fun a h => hadm ⟨a, h⟩
      exact ⟨e, by rw [hrun]⟩

/-- **When a call of the gate that raises has changed no object**: unless it is an admission
whose writes leave something behind. -/
theorem unchanged_iff_of_raises
    (hraises : ∃ e, ((commit P c).run (MemoryLedger.handle known) s).1 = .error e) :
    ((commit P c).run (MemoryLedger.handle known) s).2.objects = s.objects ↔
      ¬∃ a, Admission P known s c a ∧ s.objects.Leaves (writes P c a) := by
  obtain ⟨hreplay, hrefused⟩ := raises_iff.mp hraises
  by_cases hadm : ∃ a, Admission P known s c a
  · obtain ⟨a, hadm⟩ := hadm
    obtain ⟨e, hrun⟩ := run_write_of_refused hadm (hrefused a hadm)
    rw [run_commit_of_admission hadm, hrun]
    change (s.objects.putAll (writes P c a)).2 = s.objects ↔ _
    rw [Dict.putAll_snd_eq_iff _ _ (hrefused a hadm), not_iff_not]
    refine ⟨fun h => ⟨a, hadm, h⟩, ?_⟩
    rintro ⟨b, hb, hleaves⟩
    rwa [hadm.unique hb]
  · obtain ⟨e, hrun⟩ := run_commit_refused hreplay fun a h => hadm ⟨a, h⟩
    rw [hrun]
    exact iff_of_true rfl fun ⟨a, h, _⟩ => hadm ⟨a, h⟩

end CommitGate

end PowerfarmKernel
