import PowerfarmKernel.Kernel.History
import PowerfarmKernel.Service.Evaluation
import PowerfarmKernel.Service.Sample

/-!
# Settlement

One Command buys one change. The gate refuses a second consequential Act of a Command,
and the service replays the first one instead: a re-submission is answered with the Act
that stands, and the evaluation that comes with it carries that Act's own cuts and
Rules. `PowerfarmKernel.AuthorityService.one_change` says that the replay is stable: it
holds in every later state, however many commits came in between.

Stages are not settled this way: `PowerfarmKernel.ReviewService.stage_not_replayed`.
-/

namespace PowerfarmKernel

open Prog LedgerM

/-! ### One consequential Act per Command -/

/-- **A ledger in which a Command has one consequential Act at most**, and which finds
it: what is indexed under a Command is an Act of it, and a consequential Act is indexed
under its Command, unless no Command can have that hash. -/
structure OneChange (P : Primitives) (s : MemoryLedger) : Prop where
  indexed : ∀ commandHash, ∀ k ∈ Gate.indexed s commandHash,
    ∃ a, s.acts.get? k = some a ∧ a.commandHash = commandHash
  accounted : ∀ k a, s.acts.get? k = some a → a.IsConsequential →
    k ∈ Gate.indexed s a.commandHash ∨ ∀ command : Command, command.hash P ≠ .ok a.commandHash
  unique : ∀ k k' a a', s.acts.get? k = some a → s.acts.get? k' = some a' →
    a.IsConsequential → a'.IsConsequential → a.commandHash = a'.commandHash → k = k'

namespace OneChange

variable {P : Primitives} {known : MemoryLedger → String → String → Cut → Bool}
  {s t : MemoryLedger} {c : Submission} {a b : Act} {k : Hash}

theorem of_sameHistory (h : OneChange P s) (hsame : MemoryLedger.SameHistory s t) :
    OneChange P t := by
  have hindexed := Gate.indexed_of_sameHistory hsame
  constructor
  · intro commandHash k hk
    rw [hindexed] at hk
    rw [hsame.acts]
    exact h.indexed commandHash k hk
  · intro k a ha hcons
    rw [hsame.acts] at ha
    rw [hindexed]
    exact h.accounted k a ha hcons
  · intro k k' a a' ha ha'
    rw [hsame.acts] at ha ha'
    exact h.unique k k' a a' ha ha'

/-- A Command that is given a consequential Act had none. -/
theorem not_consequential (h : OneChange P s) (hadm : Admission P known s c a)
    (ha : a.IsConsequential) (hb : s.acts.get? k = some b)
    (hcommand : b.commandHash = a.commandHash) : ¬b.IsConsequential := by
  intro hcons
  have htype : c.actType ∉ lifecycleActTypes := by
    rw [← hadm.actType]
    exact ha
  obtain ⟨owned, howned, hstages⟩ := hadm.unsettled htype
  rcases h.accounted k b hb hcons with hk | hnone
  · rw [hcommand] at hk
    exact hcons (hstages b ((Gate.mem_owned howned).mpr ⟨k, hk, hb⟩))
  · rw [hcommand] at hnone
    exact hnone c.command hadm.commandHash

/-- **An admission keeps it.** -/
theorem of_placed (h : OneChange P s) (hadm : Admission P known s c a)
    (hplaced : Placed P s t c a) : OneChange P t := by
  have hacts := fun {k b} => hplaced.get?_iff (k := k) (b := b) hadm.fresh
  constructor
  · intro commandHash k hk
    rcases (Gate.mem_indexed_iff hplaced).mp hk with hold | ⟨rfl, rfl⟩
    · obtain ⟨b, hb, hcommand⟩ := h.indexed commandHash k hold
      exact ⟨b, hacts.mpr (Or.inr hb), hcommand⟩
    · exact ⟨a, hacts.mpr (Or.inl ⟨rfl, rfl⟩), rfl⟩
  · intro k b hb hcons
    rcases hacts.mp hb with ⟨rfl, rfl⟩ | hb
    · exact Or.inl ((Gate.mem_indexed_iff hplaced).mpr (Or.inr ⟨rfl, rfl⟩))
    · rcases h.accounted k b hb hcons with hk | hnone
      · exact Or.inl ((Gate.mem_indexed_iff hplaced).mpr (Or.inl hk))
      · exact Or.inr hnone
  · intro k k' b b' hb hb' hcons hcons' hcommand
    rcases hacts.mp hb with ⟨rfl, rfl⟩ | hb
    · rcases hacts.mp hb' with ⟨rfl, -⟩ | hb'
      · rfl
      · exact absurd hcons' (h.not_consequential hadm hcons hb' hcommand.symm)
    · rcases hacts.mp hb' with ⟨rfl, rfl⟩ | hb'
      · exact absurd hcons (h.not_consequential hadm hcons' hb hcommand)
      · exact h.unique k k' b b' hb hb' hcons hcons' hcommand

end OneChange

/-! ### Runs of the service -/

namespace AuthorityService

open Runs

variable (P : Primitives) (service : AuthorityService)
  (known : MemoryLedger → String → String → Cut → Bool)

/-- What a call answers, and the ledger after it. -/
def answer (s : MemoryLedger) (call : Call) :
    Except Raised (EvaluatedAction × Act) × MemoryLedger :=
  (commit P service call.request call.principal).run (MemoryLedger.handle known) s

/-- The ledger after one call. -/
def step (s : MemoryLedger) (call : Call) : MemoryLedger := (answer P service known s call).2

/-- The ledger after a sequence of calls, whether they succeed or fail. -/
abbrev exec (s : MemoryLedger) (calls : List Call) : MemoryLedger :=
  Runs.exec (step P service known) s calls

variable {P service known} {s t : MemoryLedger} {call : Call} {a : Act} {calls pre : List Call}
  {k commandHash : Hash}

/-- **What a call does to history**: nothing, or it admits one Act, from a ledger to
which objects were added at most. -/
theorem step_cases (P : Primitives) (service : AuthorityService)
    (known : MemoryLedger → String → String → Cut → Bool) (s : MemoryLedger) (call : Call) :
    MemoryLedger.SameHistory s (step P service known s call) ∨
      ∃ u c a, MemoryLedger.SameHistory s u ∧ Admission P known u c a ∧
        Placed P u (step P service known s call) c a := by
  have hrun : (commit P service call.request call.principal).run (MemoryLedger.handle known) s
      = ((answer P service known s call).1, step P service known s call) := rfl
  rcases commit_cases hrun with ⟨-, -, hsame⟩ | ⟨E, hE, hanswer⟩
  · exact Or.inl hsame
  · rcases hanswer with ⟨a, -, -, -, hsame⟩ | ⟨E', a, k, -, -, -, -, hsame⟩ | ⟨a, -, hcommitted⟩
    · left
      rw [hsame]
      exact MemoryLedger.SameHistory.refl s
    · exact Or.inl hsame
    · obtain ⟨u, hsame, hadm, hplaced, -⟩ := hcommitted.admitted
      exact Or.inr ⟨u, submission call.request E, a, hsame, hadm, hplaced⟩

/-- A call loses and changes no Act. -/
theorem acts_le_step (s : MemoryLedger) (call : Call) :
    s.acts ≤ (step P service known s call).acts := by
  rcases step_cases P service known s call with hsame | ⟨u, c, a, hsame, hadm, hplaced⟩
  · rw [hsame.acts]
  · rw [hplaced.acts, hsame.acts]
    refine Dict.le_set fun b hb => ?_
    have hfresh := hadm.fresh
    rw [hsame.acts, hb] at hfresh
    cases hfresh

theorem acts_le_exec (h : pre <+: calls) :
    (exec P service known s pre).acts ≤ (exec P service known s calls).acts :=
  exec_rel (R := fun s t : MemoryLedger => s.acts ≤ t.acts) (fun _ => le_refl _) le_trans
    acts_le_step h

/-- **Every call keeps one change per Command.** -/
theorem oneChange_exec (h : OneChange P s) (calls : List Call) :
    OneChange P (exec P service known s calls) := by
  refine exec_inv (fun s call hs => ?_) h calls
  rcases step_cases P service known s call with hsame | ⟨u, c, a, hsame, hadm, hplaced⟩
  · exact hs.of_sameHistory hsame
  · exact (hs.of_sameHistory hsame).of_placed hadm hplaced

/-! ### Stable replays -/

variable (service known) in
/-- **A request for a consequence of a Command that has one changes nothing**: it
raises, or it is answered with the settled consequence. -/
theorem answer_of_settled {command : Command} (hcommand : call.request.command = .ok command)
    (hhash : command.hash P = .ok commandHash)
    (howned : ∃ b, Gate.Owned s commandHash b ∧ b.IsConsequential)
    (hcons : call.request.actType ∉ lifecycleActTypes) :
    step P service known s call = s ∧
      ((∃ e, (answer P service known s call).1 = .error e) ∨
        ∃ E a, (answer P service known s call).1 = .ok (replay E .allow a, a) ∧
          E.command = command ∧ Settled P s E a) := by
  rw [step, answer]
  rcases hrun : (commit P service call.request call.principal).run (MemoryLedger.handle known) s
    with ⟨r, t⟩
  rcases run_commit_cases hrun with ⟨e, rfl, rfl⟩ | ⟨E, heval, -, hanswer⟩
  · exact ⟨rfl, Or.inl ⟨e, rfl⟩⟩
  have hsame : E.command = command := by
    have := (evaluate_ok heval).2.command.symm.trans hcommand
    exact Except.ok.inj this
  rcases hanswer with ⟨a, rfl, -, ha, rfl⟩ | ⟨hunsettled, -⟩
  · exact ⟨rfl, Or.inr ⟨E, a, rfl, hsame, ha⟩⟩
  · -- The Command owns a consequential Act, so the search has found one.
    obtain ⟨commandHash', acts, hhash', hacts, hstages⟩ := hunsettled hcons
    rw [hsame, hhash] at hhash'
    cases hhash'
    obtain ⟨b, hb, hconsb⟩ := howned
    exact absurd (hstages b ((Gate.mem_owned hacts).mpr hb)) hconsb

/-- **A Command buys its change once, and a re-submission is a stable replay.** In every
state the service can bring the ledger to, a Command has one consequential Act at most.
Once it has one, every later request that carries the Command and asks for a
consequence raises, or is answered with exactly that Act and an evaluation that carries
its cuts and its Rules; and the ledger is left as it was. -/
theorem one_change (P : Primitives) (service : AuthorityService)
    (known : MemoryLedger → String → String → Cut → Bool) (s : MemoryLedger) (hs : OneChange P s)
    (calls : List Call) :
    (∀ k k' a a', (exec P service known s calls).acts.get? k = some a →
        (exec P service known s calls).acts.get? k' = some a' → a.IsConsequential →
        a'.IsConsequential → a.commandHash = a'.commandHash → k = k') ∧
      ∀ pre k A, pre <+: calls → (exec P service known s pre).acts.get? k = some A →
        A.IsConsequential → ∀ (call : Call) (command : Command),
        call.request.command = .ok command → command.hash P = .ok A.commandHash →
        call.request.actType ∉ lifecycleActTypes →
        step P service known (exec P service known s calls) call = exec P service known s calls ∧
          ((∃ e, (answer P service known (exec P service known s calls) call).1 = .error e) ∨
            ∃ E, (answer P service known (exec P service known s calls) call).1 = .ok (E, A) ∧
              E.decision.cut = A.decisionCut ∧ E.decision.registryCut = A.registryCut ∧
              E.decision.ruleHashes = A.ruleHashes) := by
  have hone : OneChange P (exec P service known s calls) := oneChange_exec hs calls
  refine ⟨hone.unique, ?_⟩
  intro pre k A hpre hA hcons call command hcommand hhash hasked
  have hA' := acts_le_exec hpre _ _ hA
  -- The Command has a hash, so its consequential Act is indexed under it.
  have hindexed : k ∈ Gate.indexed (exec P service known s calls) A.commandHash := by
    rcases hone.accounted k A hA' hcons with hk | hnone
    · exact hk
    · exact absurd hhash (hnone command)
  obtain ⟨hsame, hanswer⟩ := answer_of_settled service known hcommand hhash
    ⟨A, ⟨k, hindexed, hA'⟩, hcons⟩ hasked
  refine ⟨hsame, ?_⟩
  rcases hanswer with herr | ⟨E, a, hok, hE, hsettled⟩
  · exact Or.inl herr
  · obtain ⟨commandHash, acts, hhash', hacts, hfind⟩ := hsettled.owned
    rw [hE, hhash] at hhash'
    cases hhash'
    obtain ⟨k', hk', ha⟩ := (Gate.mem_owned hacts).mp (List.mem_of_find?_eq_some hfind)
    have hconsa : a.actType ∉ lifecycleActTypes := by simpa using List.find?_some hfind
    -- What was found is a consequential Act of the Command, and there is one only.
    obtain ⟨a', ha', hcommanda⟩ := hone.indexed _ k' hk'
    rw [ha] at ha'
    cases ha'
    have hkk := hone.unique k' k a A ha hA' hconsa hcons hcommanda
    rw [hkk, hA'] at ha
    cases ha
    exact Or.inr ⟨replay E .allow A, hok, rfl, rfl, rfl⟩

/-- The genesis Act stands under no Command: its own is too short a hash. -/
theorem oneChange_ledger (payloads : List (Hash × List (String × CanonValue)))
    (identities : List Identity) (names : List (String × String)) :
    OneChange Sample.libraries (Sample.ledger Sample.pad payloads identities names) := by
  constructor
  · intro commandHash k hk
    exact absurd hk List.not_mem_nil
  · intro k a ha _
    obtain ⟨-, rfl⟩ := Sample.get?_ledger ha
    refine Or.inr fun command hcommand => ?_
    have hhash : Sample.digest Sample.pad _ = "genesis-command" := Except.ok.inj hcommand
    have hlength := congrArg String.length hhash
    rw [Sample.length_digest] at hlength
    exact absurd hlength (by decide)
  · intro k k' a a' ha ha' _ _ _
    rw [(Sample.get?_ledger ha).1, (Sample.get?_ledger ha').1]

/-- A thing is asked for. -/
def createCall : Call := ⟨Sample.createThing, none⟩

/-- The same Command again, at an older cut and without its payload. -/
def createAgain : Call :=
  ⟨{ Sample.createThing with historyCut := some {Sample.genesisHash Sample.pad}, payload := none },
    none⟩

/-- The ledger once the thing is made. -/
abbrev created : MemoryLedger :=
  exec Sample.libraries Sample.authority MemoryLedger.registered Sample.office [createCall]

/-- The thing is made once, and the second request is answered with the first change. -/
theorem one_change_thing : ∃ A E, A.actType = "ThingCreated" ∧
    (answer Sample.libraries Sample.authority MemoryLedger.registered created createAgain).1
      = .ok (E, A) ∧
    E.decision.cut = A.decisionCut ∧
    step Sample.libraries Sample.authority MemoryLedger.registered created createAgain
      = created := by
  have hrun : (created.acts.get? ("6441" ++ Sample.pad)).any (fun A =>
        A.actType = "ThingCreated" ∧ (createAgain.request.command.toOption.any fun command =>
          (command.hash Sample.libraries).toOption = some A.commandHash) = true) = true ∧
      (answer Sample.libraries Sample.authority MemoryLedger.registered created createAgain).1.isOk
        = true := by
    decide +kernel
  unfold created at hrun ⊢
  obtain ⟨hmade, hok⟩ := hrun
  rw [Option.any_eq_true] at hmade
  obtain ⟨A, hA, hmade⟩ := hmade
  rw [decide_eq_true_eq, Option.any_eq_true] at hmade
  obtain ⟨htype, command, hcommand, hhash⟩ := hmade
  rw [decide_eq_true_eq] at hhash
  have hasked : "ThingCreated" ∉ lifecycleActTypes := by decide
  have hcons : A.IsConsequential := by
    rw [Act.IsConsequential, htype]
    exact hasked
  have hreturned := one_change Sample.libraries Sample.authority MemoryLedger.registered
    Sample.office (oneChange_ledger _ _ _) [createCall]
  obtain ⟨hsame, hanswer⟩ := hreturned.2 [createCall] _ A List.prefix_rfl hA hcons createAgain
    command (Sample.ok_of_toOption hcommand) (Sample.ok_of_toOption hhash) hasked
  rcases hanswer with ⟨e, herr⟩ | ⟨E, hE, hcut, -⟩
  · rw [herr] at hok
    cases hok
  · exact ⟨A, E, htype, hE, hcut, hsame⟩

end AuthorityService

end PowerfarmKernel
