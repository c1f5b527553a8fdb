import PowerfarmKernel.Kernel.Json
import PowerfarmKernel.Kernel.Writes

/-!
# Objects under their addresses

Content-addressed storage takes the hash it is given, so that an object stands under the
digest of its own bytes is a promise of the code that stores it. The gate keeps it: whatever
it stores – a Command, a Context, an Act – it has just hashed under the tag of its kind
(`PowerfarmKernel.CommitGate.only_commit`). An object that is there stays, with its kind.
-/

namespace PowerfarmKernel

open Prog LedgerM

variable {P : Primitives} {known : MemoryLedger → String → String → Cut → Bool}
  {s t : MemoryLedger} {c : Submission}

/-- **A hash is the address of an object**: the object is a value in its canonical form,
and the hash is the identity of that value under the tag of its kind. -/
def IsAddress (P : Primitives) (kind : String) (canon : Bytes) (h : Hash) : Prop :=
  ∃ value, canonicalize P value = .ok canon ∧ objectHash P kind value = .ok h

/-- The digest of some bytes under the tag of a kind. -/
def taggedHash (P : Primitives) (kind : String) (canon : Bytes) : Hash :=
  P.sha256 (encode ("powerfarm:" ++ kind ++ ":" ++ "v1") ++ canon)

/-- **An address is the tagged digest of the bytes.** -/
theorem IsAddress.eq_taggedHash {kind : String} {canon : Bytes} {h : Hash}
    (haddr : IsAddress P kind canon h) : h = taggedHash P kind canon := by
  obtain ⟨value, hcanon, hhash⟩ := haddr
  obtain ⟨canon', hcanon', rfl⟩ := objectHash_ok hhash
  rw [hcanon] at hcanon'
  cases hcanon'
  rfl

/-- **Every object stands under its address.** -/
def ObjectsAddressed (P : Primitives) (s : MemoryLedger) : Prop :=
  ∀ h canon kind, s.objects.get? h = some (canon, kind) → IsAddress P kind canon h

/-- **An operation stores under addresses only.** -/
def LedgerOp.Addresses (P : Primitives) : LedgerOp → Prop
  | .putObject h canon kind => IsAddress P kind canon h
  | .commitAct act canon _ => IsAddress P "act" canon act.hash
  | _ => True

theorem LedgerOp.IsRead.addresses {o : LedgerOp} (h : o.IsRead) : o.Addresses P := by
  cases o <;> trivial

/-- Storing one more object under its address. -/
theorem ObjectsAddressed.set {objects : Dict Hash (Bytes × String)} {h : Hash} {canon : Bytes}
    {kind : String} (hs : ∀ h canon kind, objects.get? h = some (canon, kind) →
      IsAddress P kind canon h) (hh : IsAddress P kind canon h) :
    ∀ h' canon' kind', (objects.set h (canon, kind)).get? h' = some (canon', kind') →
      IsAddress P kind' canon' h' := by
  intro h' canon' kind' hget
  rcases Dict.get?_set_cases hget with ⟨rfl, heq⟩ | ⟨-, hold⟩
  · cases heq
    exact hh
  · exact hs h' canon' kind' hold

/-- **An operation that stores under addresses keeps every object under its address.** -/
theorem ObjectsAddressed.handle (hs : ObjectsAddressed P s) {o : LedgerOp} (ho : o.Addresses P) :
    ObjectsAddressed P (MemoryLedger.handle known o s).2 := by
  cases o with
  | putObject h canon kind =>
    rcases hput : s.putObject h canon kind with ⟨r, t⟩
    have hstate : (MemoryLedger.handle known (.putObject h canon kind) s).2
        = { s with toMemoryStore := t } := by
      simp [MemoryLedger.handle, MemoryLedger.lift, hput]
    rw [hstate]
    rcases MemoryStore.putObject_cases hput with ⟨-, rfl⟩ | ⟨-, rfl, -⟩
    · exact hs
    · exact ObjectsAddressed.set hs ho
  | commitAct act canon commandType =>
    rcases hcommit : s.commitAct act canon with ⟨r, t⟩
    have hstate : (MemoryLedger.handle known (.commitAct act canon commandType) s).2
        = { s with toMemoryStore := t } := by
      simp [MemoryLedger.handle, MemoryLedger.lift, hcommit]
    rw [hstate]
    rcases MemoryStore.commitAct_cases hcommit with ⟨_, -, -, rfl⟩ | ⟨-, rfl⟩ | ⟨-, -, rfl, -⟩
    · exact hs
    · exact hs
    · exact ObjectsAddressed.set hs ho
  | _ => exact hs

/-- So does a program of such operations, whether it returns or raises. -/
theorem ObjectsAddressed.run {α : Type} {p : LedgerM α} (hs : ObjectsAddressed P s)
    (hp : p.Only (LedgerOp.Addresses P)) :
    ObjectsAddressed P (p.run (MemoryLedger.handle known) s).2 :=
  hp.run_rel (h := MemoryLedger.handle known)
    (R := fun s t => ObjectsAddressed P s → ObjectsAddressed P t) (fun _ => id)
    (fun h h' => h' ∘ h) (fun _ ho _ hs => hs.handle ho) s hs

/-! ### What the gate stores -/

namespace CommitGate

theorem only_write {value : CanonValue} {actHash commandHash contextHash : Hash}
    (hcommand : c.command.hash P = .ok commandHash) (hcontext : c.context.hash P = .ok contextHash)
    (hact : objectHash P "act" value = .ok actHash) :
    (write P c value actHash commandHash contextHash).Only (LedgerOp.Addresses P) := by
  refine .ofExcept_bind fun commandCanon hcommandCanon => ?_
  refine .bind (.call ⟨_, hcommandCanon, hcommand⟩) fun _ => ?_
  refine .ofExcept_bind fun contextCanon hcontextCanon => ?_
  refine .bind (.call ⟨_, hcontextCanon, hcontext⟩) fun _ => .mapError _ ?_
  exact .ofExcept_bind fun canon hcanon => .call ⟨_, hcanon, hact⟩

/-- **The gate stores under addresses only.** -/
theorem only_commit : (commit P c).Only (LedgerOp.Addresses P) := by
  have hread : ∀ {α : Type} {p : LedgerM α}, p.Only LedgerOp.IsGateRead →
      p.Only (LedgerOp.Addresses P) := fun hp => hp.mono fun _ ho => ho.isRead.addresses
  refine .bind (.raiseWhen _ _) fun _ => .bind (.raiseWhen _ _) fun _ => ?_
  refine .ofExcept_bind fun value _ => .ofExcept_bind fun actHash hact => ?_
  refine .bind (.call trivial) fun existing => ?_
  rcases existing with _ | act
  · -- The checks read, and the two hashes they take are those the objects are stored under.
    refine .bind (.raiseWhen _ _) fun _ => .ofExcept_bind fun commandHash hcommand => ?_
    refine .ofExcept_bind fun contextHash hcontext => ?_
    refine .bind (hread (only_alreadySettled _ _)) fun _ => .bind (.raiseWhen _ _) fun _ => ?_
    refine .bind (hread (only_requireStructuralProof _ _ _ _)) fun _ => ?_
    refine .bind (.call trivial) fun _ => .bind (.raiseWhen _ _) fun _ => ?_
    refine .bind (.call trivial) fun _ => .bind (.raiseWhen _ _) fun _ => ?_
    refine .bind (.call trivial) fun _ => .bind (.raiseWhen _ _) fun _ => ?_
    refine .bind (.raiseWhen _ _) fun _ => ?_
    refine .bind (only_anyM_not (fun _ => .call trivial) _) fun _ => ?_
    refine .bind (.raiseWhen _ _) fun _ => ?_
    refine .bind (only_anyM_not (fun _ => .call trivial) _) fun _ => ?_
    refine .bind (.raiseWhen _ _) fun _ => ?_
    refine .bind (.call trivial) fun _ => .bind (.raiseWhen _ _) fun _ => ?_
    refine .bind (only_anyM_not (fun _ => .call trivial) _) fun _ => ?_
    exact .bind (.raiseWhen _ _) fun _ => only_write hcommand hcontext hact
  · exact .pure _

end CommitGate

end PowerfarmKernel
