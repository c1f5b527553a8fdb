import PowerfarmKernel.Service.Failures
import PowerfarmKernel.Service.Occurrence
import PowerfarmKernel.Service.Soundness

/-!
# What passes the service boundary

`commit` evaluates, and lets through what the evaluation does. Behind that it compares a
settled consequence, stores a payload and calls the gate, and translates nothing: whatever
the store or the gate raises is an exception the protocol does not know
(`PowerfarmKernel.CommitGate.raisesOnly_commit`).

Most of what the gate can object to, the evaluation has settled. What is left over is
`PowerfarmKernel.AuthorityService.Objection`, and
`PowerfarmKernel.AuthorityService.failuresTyped_iff` lists every way in which a failure of
the service comes out untyped.
-/

namespace PowerfarmKernel

open Prog LedgerM

section Gate

variable {P : Primitives} {known : MemoryLedger → String → String → Cut → Bool}
  {s t : MemoryLedger} {c : Submission} {commandHash : Hash}

/-! ### What the gate raises -/

/-- **A Command's Acts cannot be listed exactly when its index dangles.** -/
theorem getActsForCommand_error_iff :
    (∃ e, s.getActsForCommand commandHash = .error e) ↔
      ∃ k ∈ Gate.indexed s commandHash, s.acts.get? k = none := by
  constructor
  · rintro ⟨e, he⟩
    exact (MemoryStore.getActsForCommand_error he).2
  · rintro ⟨k, hk, hnone⟩
    rcases hacts : s.getActsForCommand commandHash with e | owned
    · exact ⟨e, rfl⟩
    · obtain ⟨act, hact⟩ := Results.exists_mapM_ok_iff.mp ⟨owned, hacts⟩ k hk
      rw [MemoryStore.actOfIndexed_ok_iff, hnone] at hact
      cases hact

/-- **What the store raises, the protocol does not know.** -/
theorem MemoryLedger.untyped_of_handle {o : LedgerOp} {e : Raised}
    (h : MemoryLedger.handle known o s = (.error e, t)) : e.Untyped := by
  cases o with
  | putObject hash canon kind =>
    obtain ⟨he, -⟩ := Prod.mk.inj h
    rcases hput : s.putObject hash canon kind with ⟨r, u⟩
    rw [hput] at he
    rw [MemoryStore.putObject] at hput
    split at hput
    · cases hput
      cases he
      rfl
    · cases hput
      cases he
  | commitAct act canon commandType =>
    obtain ⟨he, -⟩ := Prod.mk.inj h
    rcases hcommit : s.commitAct act canon with ⟨r, u⟩
    rw [hcommit] at he
    rw [MemoryStore.commitAct] at hcommit
    split at hcommit
    · cases hcommit
      cases he
    rename_i hnone
    dsimp only at hcommit
    split at hcommit
    · cases hcommit
      cases he
      rfl
    · rw [MemoryStore.appendAct, if_neg (Dict.get?_eq_none_iff.mp hnone)] at hcommit
      cases hcommit
      cases he
  | getActsForCommand hash =>
    obtain ⟨he, -⟩ := Prod.mk.inj h
    rw [Raised.Untyped, mcpError, (MemoryStore.getActsForCommand_error he).1]
  | _ => cases h

theorem MemoryLedger.raisesOnly_call (o : LedgerOp) :
    RaisesOnly (MemoryLedger.handle known) Raised.Untyped (Prog.call o) :=
  .call fun _ _ _ h => MemoryLedger.untyped_of_handle h

theorem untyped_of_canonicalize {value : CanonValue} {e : Raised}
    (h : canonicalize P value = .error e) : e.Untyped := by
  rw [Raised.Untyped, mcpError, canonicalize_error h]

namespace CommitGate

/-- A search through a list raises what its test raises. -/
theorem raisesOnly_anyM_not {α : Type} {f : α → LedgerM Bool} {φ : Raised → Prop}
    (hf : ∀ a, RaisesOnly (MemoryLedger.handle known) φ (f a)) (l : List α) :
    RaisesOnly (MemoryLedger.handle known) φ (l.anyM fun a => do
      let known ← f a
      return !known) :=
  .anyM (fun a => .bind (hf a) fun _ => .pure _) l

theorem raisesOnly_reviewedCommand (payloadHash : Hash) :
    RaisesOnly (MemoryLedger.handle known) Raised.Untyped (reviewedCommand P payloadHash) :=
  .bind (MemoryLedger.raisesOnly_call _) fun _ => .pure _

theorem raisesOnly_requireStructuralProof (command : Command) (commandHash : Hash)
    (actType : String) (authChain : List Hash) :
    RaisesOnly (MemoryLedger.handle known) Raised.Untyped
      (requireStructuralProof P command commandHash actType authChain) := by
  have hlinks : RaisesOnly (MemoryLedger.handle known) Raised.Untyped (authChain.mapM getAct) :=
    .mapM (f := getAct) (fun _ => MemoryLedger.raisesOnly_call _) authChain
  refine .ite ?_ (.bind hlinks fun links => ?_)
  · exact .bind (.raiseWhen _ rfl) fun _ => .bind (raisesOnly_reviewedCommand _) fun _ =>
      .raiseWhen _ rfl
  · refine .ite ?_ (.ite (.pure _) ?_)
    · refine .bind (.raiseWhen _ rfl) fun _ => .bind (.raiseWhen _ rfl) fun _ => .bind ?_ fun _ =>
        .raiseWhen _ rfl
      exact .anyM (fun _ => .bind (raisesOnly_reviewedCommand _) fun _ => .pure _) _
    · exact .bind (MemoryLedger.raisesOnly_call _) fun _ => .raiseWhen _ rfl

theorem raisesOnly_alreadySettled (actType : String) (commandHash : Hash) :
    RaisesOnly (MemoryLedger.handle known) Raised.Untyped (alreadySettled actType commandHash) :=
  .ite (.bind (MemoryLedger.raisesOnly_call _) fun _ => .pure _) (.pure _)

theorem raisesOnly_checks :
    RaisesOnly (MemoryLedger.handle known) Raised.Untyped (checks P c) := by
  refine .bind (.raiseWhen _ rfl) fun _ => .bind (.ofExcept fun _ => untyped_of_objectHash)
    fun _ => .bind (.ofExcept fun _ => untyped_of_objectHash) fun _ => ?_
  refine .bind (raisesOnly_alreadySettled _ _) fun _ => .bind (.raiseWhen _ rfl) fun _ => ?_
  refine .bind (raisesOnly_requireStructuralProof _ _ _ _) fun _ => ?_
  refine .bind (MemoryLedger.raisesOnly_call _) fun _ => .bind (.raiseWhen _ rfl) fun _ => ?_
  refine .bind (MemoryLedger.raisesOnly_call _) fun _ => .bind (.raiseWhen _ rfl) fun _ => ?_
  refine .bind (MemoryLedger.raisesOnly_call _) fun _ => .bind (.raiseWhen _ rfl) fun _ => ?_
  refine .bind (.raiseWhen _ rfl) fun _ =>
    .bind (raisesOnly_anyM_not (fun _ => MemoryLedger.raisesOnly_call _) _) fun _ => ?_
  refine .bind (.raiseWhen _ rfl) fun _ =>
    .bind (raisesOnly_anyM_not (fun _ => MemoryLedger.raisesOnly_call _) _) fun _ => ?_
  refine .bind (.raiseWhen _ rfl) fun _ => .bind (MemoryLedger.raisesOnly_call _) fun _ => ?_
  refine .bind (.raiseWhen _ rfl) fun _ =>
    .bind (raisesOnly_anyM_not (fun _ => MemoryLedger.raisesOnly_call _) _) fun _ => ?_
  exact .bind (.raiseWhen _ rfl) fun _ => .pure _

theorem raisesOnly_write (value : CanonValue) (actHash commandHash contextHash : Hash) :
    RaisesOnly (MemoryLedger.handle known) Raised.Untyped
      (write P c value actHash commandHash contextHash) :=
  .bind (.ofExcept fun _ => untyped_of_canonicalize) fun _ =>
    .bind (MemoryLedger.raisesOnly_call _) fun _ =>
    .bind (.ofExcept fun _ => untyped_of_canonicalize) fun _ =>
    .bind (MemoryLedger.raisesOnly_call _) fun _ => .mapError _ fun _ => rfl

/-- **What the gate raises, the protocol does not know.** -/
theorem raisesOnly_commit :
    RaisesOnly (MemoryLedger.handle known) Raised.Untyped (commit P c) := by
  have hvalue : ∀ e, canonicalValue P c = .error e → e.Untyped := by
    intro e h
    rw [canonicalValue] at h
    rcases hcommand : c.command.hash P with e' | commandHash
    · rw [hcommand] at h
      cases h
      exact untyped_of_objectHash hcommand
    rcases hcontext : c.context.hash P with e' | contextHash
    · rw [hcommand, hcontext] at h
      cases h
      exact untyped_of_objectHash hcontext
    · rw [hcommand, hcontext] at h
      cases h
  refine .bind (.raiseWhen _ rfl) fun _ => .bind (.raiseWhen _ rfl) fun _ => ?_
  refine .bind (.ofExcept hvalue) fun value => .bind (.ofExcept fun _ => untyped_of_objectHash)
    fun actHash => .bind (MemoryLedger.raisesOnly_call _) fun existing => ?_
  rcases existing with _ | act
  · dsimp only
    rw [commitFresh_eq]
    exact .bind raisesOnly_checks fun _ => raisesOnly_write _ _ _ _
  · exact .pure _

end CommitGate

end Gate

namespace AuthorityService

variable {P : Primitives} {service : AuthorityService}
  {known : MemoryLedger → String → String → Cut → Bool} {s t u : MemoryLedger}
  {request : ActionRequest} {principal : Option RequestPrincipal} {E : EvaluatedAction} {a : Act}

/-! ### What the gate can object to -/

/-- **What the gate can object to in a call of the service**, in the ledger that it is called
on. The rest of its checks the evaluation has made. -/
inductive Objection (P : Primitives) (u : MemoryLedger) (c : Submission) : Prop
  /-- The Context or the Act has no canonical form. -/
  | unaddressed (formless : ∀ k, c.occurrence P ≠ .ok k)
  /-- The parts of the chain do not fit together. -/
  | unproved {commandHash : Hash} (hash : c.command.hash P = .ok commandHash)
      (unproved : ¬StructuralProof P u.toMemoryStore c.command commandHash c.actType c.authChain)
  /-- A parent is no Act of history. -/
  | orphan {parent : Hash} (mem : parent ∈ c.command.parents)
      (absent : u.acts.get? parent = none)
  /-- The hash of the Command, the Context or the Act stands for another object. -/
  | collision {k commandHash contextHash : Hash} (place : c.occurrence P = .ok k)
      (command : c.command.hash P = .ok commandHash) (context : c.context.hash P = .ok contextHash)
      (refused : u.objects.Refused
        (CommitGate.writes P c (CommitGate.actOf c k commandHash contextHash)))

/-- **An action is granted**: its evaluation returns, with an outcome that permits it. -/
structure Granted (P : Primitives) (service : AuthorityService) (s : MemoryLedger)
    (request : ActionRequest) (principal : Option RequestPrincipal) (E : EvaluatedAction) :
    Prop where
  evaluation : Evaluation P service MemoryLedger.registered s request principal E
  permitted : E.decision.outcome ∈ permittedOutcomes E.actType

/-- **An action the service passes on to the gate**: granted, with no consequence of its
Command in history, and decided on this very history. -/
structure PassedOn (P : Primitives) (service : AuthorityService) (s : MemoryLedger)
    (request : ActionRequest) (principal : Option RequestPrincipal) (E : EvaluatedAction) : Prop
    extends Granted P service s request principal E where
  unsettled : request.actType ∉ lifecycleActTypes → ∃ commandHash acts,
    E.command.hash P = .ok commandHash ∧ s.getActsForCommand commandHash = .ok acts ∧
    ∀ b ∈ acts, b.actType ∈ lifecycleActTypes
  current : E.decision.cut = s.historyCut

/-- Every Rule of an evaluation is one the Decision records, and there is one. -/
theorem Evaluation.ruled (hE : Evaluation P service known s request principal E) :
    E.decision.ruleHashes ≠ [] ∧
      ∀ h ∈ E.decision.ruleHashes, known s "rule" h E.decision.registryCut = true := by
  obtain ⟨rules, -, hknown, hdecision⟩ := hE.rules
  obtain ⟨-, hne, -⟩ := authorize_ok_iff.mp hdecision
  rw [(authorize_ok hdecision).2.2.1]
  refine ⟨mt List.map_eq_nil_iff.mp hne, fun h hh => ?_⟩
  obtain ⟨rule, hrule, rfl⟩ := List.mem_map.mp hh
  exact hknown rule hrule

/-- **What the service has checked before it calls the gate**, the gate will find so. -/
theorem PassedOn.checked (h : PassedOn P service s request principal E)
    (hstore : (storePayload P request).run (MemoryLedger.handle MemoryLedger.registered) s
      = (.ok (), u)) {commandHash contextHash : Hash}
    (hcommand : E.command.hash P = .ok commandHash) (hcontext : E.context.hash P = .ok contextHash)
    (hproof : StructuralProof P u.toMemoryStore E.command commandHash E.actType E.authChain)
    (hparents : ∀ parent ∈ E.command.parents, (u.acts.get? parent).isSome) :
    Checked P MemoryLedger.registered u (submission request E) commandHash contextHash := by
  obtain ⟨hsame, hpayload⟩ := run_storePayload_ok hstore
  obtain ⟨htyped, -, hpayloadHash, -⟩ := ActionRequest.command_ok h.evaluation.command
  -- Storing the payload adds an object, and changes nothing of what was checked.
  have hregistered : ∀ kind name cut, u.registered kind name cut = s.registered kind name cut :=
    (MemoryLedger.Grows.of_sameHistory hsame).registered
  have hunsettled : E.actType ∉ lifecycleActTypes → ∃ owned,
      u.getActsForCommand commandHash = .ok owned ∧ ∀ b ∈ owned, b.actType ∈ lifecycleActTypes := by
    intro hcons
    rw [h.evaluation.actType] at hcons
    obtain ⟨commandHash', owned, hhash, howned, hstages⟩ := h.unsettled hcons
    rw [hcommand] at hhash
    cases hhash
    exact ⟨owned, by rw [hsame.getActsForCommand]; exact howned, hstages⟩
  have hstored : (u.objects.get? E.command.payloadHash).isSome := by
    rw [hpayloadHash]
    rcases hgiven : request.payload with _ | payload
    · obtain ⟨object, hobject⟩ := Option.isSome_iff_exists.mp (h.evaluation.payloadStored hgiven)
      rw [hsame.objects _ _ hobject]
      rfl
    · obtain ⟨canon, -, hget⟩ := hpayload payload hgiven
      rw [hget]
      rfl
  exact {
    permitted := h.permitted
    commandHashed := hcommand
    contextHashed := hcontext
    unsettled := hunsettled
    structural := hproof
    cut := by
      rw [MemoryStore.historyCut, hsame.acts]
      exact h.current
    commandTyped := by
      rw [hregistered]
      exact htyped ▸ h.evaluation.commandTyped
    actTyped := by
      rw [hregistered]
      change s.registered "act_type" E.actType E.decision.registryCut = true
      rw [h.evaluation.actType]
      exact h.evaluation.actTyped
    ruled := h.evaluation.ruled.1
    rulesKnown := fun hash hhash => by
      rw [hregistered]
      exact h.evaluation.ruled.2 hash hhash
    keysKnown := fun key hkey => by
      rw [hregistered]
      exact h.evaluation.keysKnown key hkey
    payload := hstored
    parents := hparents }

/-- **The gate refuses an action the service passes on** exactly when its place is free and
the gate has something to object. -/
theorem PassedOn.gateRefuses_iff (h : PassedOn P service s request principal E)
    (hstore : (storePayload P request).run (MemoryLedger.handle MemoryLedger.registered) s
      = (.ok (), u)) :
    GateRefuses P MemoryLedger.registered u (submission request E) ↔
      (∀ k, (submission request E).occurrence P = .ok k → s.acts.get? k = none) ∧
        Objection P u (submission request E) := by
  have hacts : u.acts = s.acts := (sameHistory_storePayload hstore).acts
  constructor
  · rintro ⟨hreplay, hadm⟩
    have hfree : ∀ k, (submission request E).occurrence P = .ok k → u.acts.get? k = none := by
      intro k hk
      rw [← Option.not_isSome_iff_eq_none, Option.isSome_iff_exists]
      rintro ⟨b, hb⟩
      exact hreplay b ⟨h.evaluation.signed.1, h.evaluation.signed.2, k, hk, hb⟩
    refine ⟨hacts ▸ hfree, ?_⟩
    by_contra hnone
    -- Nothing is objected to, so every check passes, and the writes are refused.
    obtain ⟨k, hplace⟩ : ∃ k, (submission request E).occurrence P = .ok k := by
      by_contra hformless
      exact hnone (.unaddressed fun k hk => hformless ⟨k, hk⟩)
    obtain ⟨commandHash, contextHash, hcommand, hcontext, hhash⟩ := Submission.occurrence_ok hplace
    have hproof :
        StructuralProof P u.toMemoryStore E.command commandHash E.actType E.authChain := by
      by_contra hunproved
      exact hnone (.unproved hcommand hunproved)
    have hparents : ∀ parent ∈ E.command.parents, (u.acts.get? parent).isSome := by
      intro parent hparent
      by_contra habsent
      exact hnone (.orphan hparent (Option.not_isSome_iff_eq_none.mp habsent))
    have hadmission := Admission.of_checked (h.checked hstore hcommand hcontext hproof hparents)
      h.evaluation.signed.1 h.evaluation.signed.2 hhash (hfree k hplace)
    exact hnone (.collision hplace hcommand hcontext (hadm _ hadmission))
  · rintro ⟨hfree, hobjection⟩
    refine ⟨?_, fun a hadm => ?_⟩
    · rintro b ⟨-, -, k, hk, hb⟩
      rw [hacts, hfree k hk] at hb
      cases hb
    · have hplace : (submission request E).occurrence P = .ok a.hash := by
        rw [Submission.occurrence, CommitGate.canonicalValue, hadm.commandHash, hadm.contextHash]
        exact hadm.hash
      rcases hobjection with hformless | ⟨hcommand, hunproved⟩ | ⟨hmem, habsent⟩ |
        ⟨hk, hcommand, hcontext, hrefused⟩
      · exact absurd hplace (hformless _)
      · rw [Except.ok.inj (hcommand.symm.trans hadm.commandHash)] at hunproved
        exact absurd hadm.structural hunproved
      · have hsome := hadm.parents _ hmem
        rw [habsent] at hsome
        cases hsome
      · rw [Except.ok.inj (hk.symm.trans hplace),
          Except.ok.inj (hcommand.symm.trans hadm.commandHash),
          Except.ok.inj (hcontext.symm.trans hadm.contextHash), ← hadm.act_eq] at hrefused
        exact hrefused

/-! ### What passes through `commit` -/

/-- What an answer to a Command that has bought an Act lets through: the Context has no
canonical form, and nothing before it differs. -/
theorem untyped_answerBought_iff :
    (∃ e, answerBought P E a = .error e ∧ e.Untyped) ↔
      a.actType = E.actType ∧ a.identityHash = E.identity.hash ∧ a.parents = E.command.parents ∧
        ∀ k, E.context.hash P ≠ .ok k := by
  have htyped : ∀ text, ¬(conflictError text).Untyped :=
    fun text => (typed_conflictError text).not_untyped
  rw [answerBought]
  split
  · rename_i hdiffers
    refine iff_of_false ?_ ?_
    · rintro ⟨e, he, huntyped⟩
      cases he
      exact htyped _ huntyped
    · rintro ⟨hactType, hidentity, hparents, -⟩
      simp [hactType, hidentity, hparents] at hdiffers
  rename_i hsame
  rw [not_or, not_or, not_not, not_not, not_not] at hsame
  rcases hcontext : E.context.hash P with e | contextHash
  · exact iff_of_true ⟨e, rfl, untyped_of_objectHash hcontext⟩
      ⟨hsame.1, hsame.2.1, hsame.2.2, by simp⟩
  · refine iff_of_false ?_ ?_
    · rintro ⟨e, he, huntyped⟩
      dsimp only at he
      split at he
      · cases he
        exact htyped _ huntyped
      · cases he
    · rintro ⟨-, -, -, hformless⟩
      exact hformless contextHash rfl

/-- A Command whose signature verifies has a hash. -/
theorem exists_hash_of_verifies {command : Command} {identity : Identity}
    (h : command.verifies P identity = true) : ∃ k, command.hash P = .ok k := by
  rw [Command.verifies] at h
  rcases hcanon : canonicalize P command.signingValue with e | canon
  · rw [hcanon] at h
    cases h
  · by_contra hnone
    have herror : ∃ e, command.hash P = .error e := by
      rcases hhash : command.hash P with e | k
      · exact ⟨e, rfl⟩
      · exact absurd ⟨k, hhash⟩ hnone
    exact (objectHash_error_iff (by decide)).mp herror canon hcanon

/-- A Command has bought one consequence at most. -/
theorem Bought.unique {command : Command} {b : Act} (ha : Bought P s command a)
    (hb : Bought P s command b) : b = a := by
  obtain ⟨k, acts, hk, hacts, ha⟩ := ha
  obtain ⟨k', acts', hk', hacts', hb⟩ := hb
  cases hk.symm.trans hk'
  cases hacts.symm.trans hacts'
  exact Option.some.inj (hb.symm.trans ha)

/-- **What the search for a settled consequence lets through**: an indexed hash without an
Act, or what the answer does. -/
theorem raises_settledConsequence_iff {commandHash : Hash}
    (hhash : E.command.hash P = .ok commandHash) :
    (settledConsequence P E).Raises (MemoryLedger.handle known) Raised.Untyped s ↔
      (∃ k ∈ Gate.indexed s commandHash, s.acts.get? k = none) ∨
        ∃ a, Bought P s E.command a ∧ a.actType = E.actType ∧ a.identityHash = E.identity.hash ∧
          a.parents = E.command.parents ∧ ∀ k, E.context.hash P ≠ .ok k := by
  rw [← getActsForCommand_error_iff]
  rcases hacts : s.getActsForCommand commandHash with e | owned
  · -- The Acts of the Command cannot be listed.
    have huntyped : e.Untyped := by
      rw [Raised.Untyped, mcpError, (MemoryStore.getActsForCommand_error hacts).1]
    refine iff_of_true ⟨e, s, ?_, huntyped⟩ (Or.inl ⟨e, rfl⟩)
    rw [settledConsequence, hhash, run_bind_of_eq (run_ofExcept _), run_bind,
      MemoryLedger.run_getActsForCommand, hacts]
  rw [or_iff_right (by simp)]
  by_cases hbought : ∃ a, Bought P s E.command a
  · obtain ⟨a, ha⟩ := hbought
    have hraises : (settledConsequence P E).Raises (MemoryLedger.handle known) Raised.Untyped s ↔
        ∃ e, answerBought P E a = .error e ∧ e.Untyped := by
      rw [Raises, run_settledConsequence_of_bought ha]
      rcases answerBought P E a with e | x
      · simp [Except.map]
      · simp [Except.map]
    rw [hraises, untyped_answerBought_iff]
    constructor
    · exact fun h => ⟨a, ha, h⟩
    · rintro ⟨b, hb, h⟩
      rw [ha.unique hb] at h
      exact h
  · -- Nothing is settled, and nothing is compared.
    have hstages : ∀ b ∈ owned, b.actType ∈ lifecycleActTypes := by
      intro b hb
      by_contra hcons
      rcases hfind : owned.find? (fun act => act.actType ∉ lifecycleActTypes) with _ | found
      · have hnot := List.find?_eq_none.mp hfind b hb
        exact hnot (decide_eq_true hcons)
      · exact hbought ⟨found, commandHash, owned, hhash, hacts, hfind⟩
    refine iff_of_false ?_ ?_
    · rw [Raises, run_settledConsequence_none hhash hacts hstages]
      simp
    · rintro ⟨a, ha, -⟩
      exact hbought ⟨a, ha⟩

/-- **What storing a payload lets through**: its hash stands for another object. -/
theorem raises_storePayload_iff (hE : Evaluation P service known s request principal E) :
    (storePayload P request).Raises (MemoryLedger.handle known) Raised.Untyped s ↔
      ¬Storable P s request := by
  constructor
  · rintro ⟨e, u, hrun, -⟩ hstorable
    rw [run_storePayload_of_storable hE hstorable] at hrun
    cases hrun
  · intro hnot
    rw [Storable] at hnot
    push Not at hnot
    obtain ⟨payload, hpayload, hclash⟩ := hnot
    exact ⟨_, s, run_storePayload_of_clashes hE hpayload hclash, rfl⟩

/-- Once the payload is stored, what is left fails where the gate does: what the gate raises
is typed nowhere, and the answer raises nothing. -/
theorem raises_gate_iff :
    (do
      let act ← CommitGate.commit P (submission request E)
      if act.hash ∈ E.decision.cut then return (replay E E.decision.outcome act, act)
      else return (E, act) : LedgerM (EvaluatedAction × Act)).Raises
        (MemoryLedger.handle MemoryLedger.registered) Raised.Untyped u ↔
      GateRefuses P MemoryLedger.registered u (submission request E) := by
  rw [raises_bind_iff, or_iff_left, GateRefuses, ← CommitGate.raises_iff]
  · constructor
    · rintro ⟨e, v, hrun, -⟩
      exact ⟨e, by rw [hrun]⟩
    · rintro ⟨e, he⟩
      exact ⟨e, _, Prod.ext he rfl, CommitGate.raisesOnly_commit u e _ (Prod.ext he rfl)⟩
  · rintro ⟨act, v, -, hraises⟩
    split at hraises
    · exact not_raises_pure hraises
    · exact not_raises_pure hraises

/-- **What the gate lets through**, behind the service: all it refuses. -/
theorem raises_storeAndCommit_iff (h : PassedOn P service s request principal E) :
    (storeAndCommit P request E).Raises (MemoryLedger.handle MemoryLedger.registered)
        Raised.Untyped s ↔
      ¬Storable P s request ∨ Storable P s request ∧
        (∀ k, (submission request E).occurrence P = .ok k → s.acts.get? k = none) ∧
        Objection P (payloadStored P s request) (submission request E) := by
  rw [storeAndCommit, raises_bind_iff, raises_storePayload_iff h.evaluation]
  refine or_congr_right ?_
  constructor
  · rintro ⟨x, u, hstore, hraises⟩
    -- The payload was stored, so the gate is called on the ledger that holds it.
    have hstorable := storable_of_run h.evaluation hstore
    rw [run_storePayload_of_storable h.evaluation hstorable] at hstore
    cases hstore
    exact ⟨hstorable, (h.gateRefuses_iff (run_storePayload_of_storable h.evaluation
      hstorable)).mp (raises_gate_iff.mp hraises)⟩
  · rintro ⟨hstorable, hrefuses⟩
    have hstore : (storePayload P request).run (MemoryLedger.handle MemoryLedger.registered) s
        = (.ok (), payloadStored P s request) :=
      run_storePayload_of_storable h.evaluation hstorable
    exact ⟨(), _, hstore, raises_gate_iff.mpr ((h.gateRefuses_iff hstore).mpr hrefuses)⟩

theorem raises_commitEvaluated_iff :
    (commitEvaluated P request E).Raises (MemoryLedger.handle known) Raised.Untyped s ↔
      E.decision.cut = s.historyCut ∧
        (storeAndCommit P request E).Raises (MemoryLedger.handle known) Raised.Untyped s := by
  rw [commitEvaluated, raises_bind_of_eq MemoryLedger.run_historyCut,
    raises_raiseWhen_bind_iff (typed_conflictError _).not_untyped, not_not]
  refine and_congr_right fun hcut => ?_
  rw [storeAndCommit, hcut]

/-- **A failure of the service comes out untyped**, and where. -/
inductive Escapes (P : Primitives) (service : AuthorityService) (s : MemoryLedger)
    (request : ActionRequest) (principal : Option RequestPrincipal) : Prop
  /-- The evaluation lets it through. -/
  | evaluation (escapes : EvaluationEscapes P service MemoryLedger.registered s request principal)
  /-- A hash indexed under the Command has no Act: a `KeyError`. -/
  | dangling {E : EvaluatedAction} {commandHash k : Hash}
      (granted : Granted P service s request principal E)
      (consequential : request.actType ∉ lifecycleActTypes)
      (hash : E.command.hash P = .ok commandHash) (indexed : k ∈ Gate.indexed s commandHash)
      (absent : s.acts.get? k = none)
  /-- The Command has bought an Act that agrees with the request as far as the Context, and
  the Context has no canonical form: a `CanonicalizationError`. -/
  | unhashed {E : EvaluatedAction} {a : Act} (granted : Granted P service s request principal E)
      (consequential : request.actType ∉ lifecycleActTypes) (bought : Bought P s E.command a)
      (actType : a.actType = E.actType) (identityHash : a.identityHash = E.identity.hash)
      (parents : a.parents = E.command.parents) (formless : ∀ k, E.context.hash P ≠ .ok k)
  /-- The hash of the payload stands for another object: a `ValueError`. -/
  | payload {E : EvaluatedAction} (passedOn : PassedOn P service s request principal E)
      (collides : ¬Storable P s request)
  /-- The place of the Act is free, and the gate objects: a `CommitError`, or what the hash of
  the Context or the store raises. -/
  | gate {E : EvaluatedAction} (passedOn : PassedOn P service s request principal E)
      (storable : Storable P s request)
      (free : ∀ k, (submission request E).occurrence P = .ok k → s.acts.get? k = none)
      (objection : Objection P (payloadStored P s request) (submission request E))

/-- An action that is passed on fails in the store, or at the gate. -/
theorem PassedOn.escapes (h : PassedOn P service s request principal E) :
    (storeAndCommit P request E).Raises (MemoryLedger.handle MemoryLedger.registered)
        Raised.Untyped s → Escapes P service s request principal := by
  rw [raises_storeAndCommit_iff h]
  rintro (hcollides | ⟨hstorable, hfree, hobjection⟩)
  · exact .payload h hcollides
  · exact .gate h hstorable hfree hobjection

/-- What fails behind the service fails in a call of `commit` that gets there. -/
theorem PassedOn.raises_commit (h : PassedOn P service s request principal E)
    (hraises : (storeAndCommit P request E).Raises (MemoryLedger.handle MemoryLedger.registered)
      Raised.Untyped s) :
    (commit P service request principal).Raises (MemoryLedger.handle MemoryLedger.registered)
      Raised.Untyped s := by
  have hreaches : Reaches P service MemoryLedger.registered s request principal E :=
    ⟨evaluate_ok_iff.mpr h.evaluation, h.permitted, h.unsettled, h.current⟩
  rw [Raises, run_commit_of_reaches hreaches]
  exact hraises

/-- What fails in the search for a settled consequence fails in a call that gets there. -/
theorem Granted.raises_commit (h : Granted P service s request principal E)
    (hcons : request.actType ∉ lifecycleActTypes)
    (hraises : (settledConsequence P E).Raises (MemoryLedger.handle MemoryLedger.registered)
      Raised.Untyped s) :
    (commit P service request principal).Raises (MemoryLedger.handle MemoryLedger.registered)
      Raised.Untyped s := by
  have hconsequential : E.actType ∉ lifecycleActTypes := by
    rw [h.evaluation.actType]
    exact hcons
  rw [commit, raises_bind_of_eq (evaluate_ok_iff.mpr h.evaluation), admitEvaluated,
    raises_raiseWhen_bind_iff (typed_authorizationError _).not_untyped, if_pos hconsequential]
  exact ⟨not_not.mpr h.permitted, raises_bind_iff.mpr (Or.inl hraises)⟩

/-- **A call of `commit` lets through what the list says**, and nothing else. -/
theorem raises_commit_iff :
    (commit P service request principal).Raises (MemoryLedger.handle MemoryLedger.registered)
        Raised.Untyped s ↔ Escapes P service s request principal := by
  constructor
  · rw [commit, raises_bind_iff, raises_evaluate_iff]
    rintro (hescapes | ⟨E, t, heval, hraises⟩)
    · exact .evaluation hescapes
    obtain ⟨rfl, hE⟩ := evaluate_ok heval
    rw [admitEvaluated, raises_raiseWhen_bind_iff (typed_authorizationError _).not_untyped,
      not_not] at hraises
    obtain ⟨hpermitted, hraises⟩ := hraises
    have hgranted : Granted P service t request principal E := ⟨hE, hpermitted⟩
    -- What is left are the two ways to the gate: a consequence looks for a settled one first.
    split at hraises
    · rename_i hcons
      rw [hE.actType] at hcons
      rcases raises_bind_iff.mp hraises with hsettled | ⟨found, u, hfound, hraises⟩
      · obtain ⟨commandHash, hhash⟩ := exists_hash_of_verifies hE.verified
        rcases (raises_settledConsequence_iff hhash).mp hsettled with
          ⟨k, hk, habsent⟩ | ⟨a, ha, hactType, hidentity, hparents, hformless⟩
        · exact .dangling hgranted hcons hhash hk habsent
        · exact .unhashed hgranted hcons ha hactType hidentity hparents hformless
      · obtain ⟨rfl, commandHash, acts, hhash, hacts, ⟨rfl, hstages⟩ | ⟨a, rfl, -⟩⟩ :=
          run_settledConsequence_ok hfound
        · obtain ⟨hcurrent, hraises⟩ := raises_commitEvaluated_iff.mp hraises
          exact PassedOn.escapes ⟨hgranted, fun _ => ⟨commandHash, acts, hhash, hacts,
            hstages⟩, hcurrent⟩ hraises
        · exact absurd hraises not_raises_pure
    · rename_i hstage
      rw [hE.actType] at hstage
      obtain ⟨hcurrent, hraises⟩ := raises_commitEvaluated_iff.mp hraises
      exact PassedOn.escapes ⟨hgranted, fun hcons => absurd hcons hstage, hcurrent⟩ hraises
  · rintro (hescapes | ⟨granted, consequential, hash, indexed, absent⟩ |
      ⟨granted, consequential, bought, actType, identityHash, parents, formless⟩ |
      ⟨passedOn, collides⟩ | ⟨passedOn, storable, free, objection⟩)
    · rw [commit, raises_bind_iff, raises_evaluate_iff]
      exact Or.inl hescapes
    · exact granted.raises_commit consequential
        ((raises_settledConsequence_iff hash).mpr (Or.inl ⟨_, indexed, absent⟩))
    · obtain ⟨commandHash, hhash⟩ := exists_hash_of_verifies granted.evaluation.verified
      exact granted.raises_commit consequential ((raises_settledConsequence_iff hhash).mpr
        (Or.inr ⟨_, bought, actType, identityHash, parents, formless⟩))
    · exact passedOn.raises_commit
        ((raises_storeAndCommit_iff passedOn).mpr (Or.inl collides))
    · exact passedOn.raises_commit
        ((raises_storeAndCommit_iff passedOn).mpr (Or.inr ⟨storable, free, objection⟩))

/-- **Every failure at the service boundary is typed**: no exception passes through
`call_service` as it is. -/
structure FailuresTyped (P : Primitives) (service : AuthorityService) (s : MemoryLedger)
    (request : ActionRequest) (principal : Option RequestPrincipal) : Prop where
  evaluate : ∀ e,
    callService ((evaluate P service request principal).run memoryLedger s).1 ≠ .error (.inr e)
  commit : ∀ e,
    callService ((commit P service request principal).run memoryLedger s).1 ≠ .error (.inr e)

/-- What passes through `call_service` is an untyped exception. -/
theorem callService_run_iff {α : Type} {p : LedgerM α} :
    (∃ e, callService (p.run memoryLedger s).1 = .error (.inr e)) ↔
      p.Raises (MemoryLedger.handle MemoryLedger.registered) Raised.Untyped s := by
  simp only [callService_eq_inr, Raises]
  constructor
  · rintro ⟨e, he, huntyped⟩
    exact ⟨e, _, Prod.ext he rfl, huntyped⟩
  · rintro ⟨e, t, hrun, huntyped⟩
    exact ⟨e, congrArg Prod.fst hrun, huntyped⟩

/-- **The failures of the service are typed exactly where none of the list escapes.** -/
theorem failuresTyped_iff (P : Primitives) (service : AuthorityService) (s : MemoryLedger)
    (request : ActionRequest) (principal : Option RequestPrincipal) :
    FailuresTyped P service s request principal ↔ ¬Escapes P service s request principal := by
  rw [← raises_commit_iff, ← callService_run_iff]
  constructor
  · rintro h ⟨e, he⟩
    exact h.commit e he
  · intro hnone
    refine ⟨fun e he => ?_, fun e he => hnone ⟨e, he⟩⟩
    -- What escapes an evaluation escapes the call that makes it.
    have hescapes := raises_evaluate_iff.mp (callService_run_iff.mp ⟨e, he⟩)
    exact hnone (callService_run_iff.mpr (raises_commit_iff.mpr (.evaluation hescapes)))

/-- A request that gives a Context key a value and no type. -/
def createUntyped : ActionRequest :=
  { Sample.createThing with contextValues := Dict.empty.set "origin" (.str "workshop") }

/-- **A value without a type is answered with a `ValueError`.** -/
theorem untyped_value_escapes :
    ¬FailuresTyped Sample.libraries Sample.authority Sample.office createUntyped none := by
  intro h
  have hrun : ((evaluate Sample.libraries Sample.authority createUntyped none).run memoryLedger
      Sample.office).1.map (fun _ => ()) =
        .error (valueError "every context value must have exactly one registered type") := by
    decide +kernel
  rcases heval : ((evaluate Sample.libraries Sample.authority createUntyped none).run
    memoryLedger Sample.office).1 with e | E
  · rw [heval] at hrun
    cases hrun
    exact h.evaluate _ (callService_eq_inr.mpr ⟨heval, rfl⟩)
  · rw [heval] at hrun
    cases hrun

end AuthorityService

end PowerfarmKernel
