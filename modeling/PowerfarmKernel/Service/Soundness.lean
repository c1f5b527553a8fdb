import PowerfarmKernel.Service.Settlement

/-!
# Admission soundness

What an Act of history proves about its own admission. The guarantee is put together from
checks that stand far apart – in the evaluation, the resolver, the authorization, the
service and the gate – each of which reads its own copy of the request.
`PowerfarmKernel.SoundlyAdmitted` states it of the ledger alone, and
`PowerfarmKernel.AuthorityService.admission_sound` says that every Act a run of the service
adds has it, in the ledger at the end of the run.
-/

namespace PowerfarmKernel

open Prog LedgerM

/-! ### What later calls leave in place -/

/-- **A ledger grows**: its Acts and objects stay, and its Identities and its registry are
fixed. -/
structure MemoryLedger.Grows (s t : MemoryLedger) : Prop where
  acts : s.acts ≤ t.acts
  objects : s.objects ≤ t.objects
  identities : t.identities = s.identities
  registryMetadata : t.registryMetadata = s.registryMetadata

namespace MemoryLedger.Grows

variable {s t u : MemoryLedger} {cut : Cut}

theorem refl (s : MemoryLedger) : Grows s s := ⟨le_refl _, le_refl _, rfl, rfl⟩

theorem trans (h : Grows s t) (h' : Grows t u) : Grows s u :=
  ⟨h.acts.trans h'.acts, h.objects.trans h'.objects, h'.identities.trans h.identities,
    h'.registryMetadata.trans h.registryMetadata⟩

theorem of_sameHistory (h : SameHistory s t) : Grows s t :=
  ⟨by rw [h.acts], h.objects, h.identities, h.registryMetadata⟩

theorem of_placed {P : Primitives} {c : Submission} {a : Act} (h : Placed P s t c a)
    (hfresh : s.acts.get? a.hash = none) : Grows s t := by
  refine ⟨?_, h.objects, h.identities, h.registryMetadata⟩
  rw [h.acts]
  refine Dict.le_set fun b hb => ?_
  rw [hfresh] at hb
  cases hb

/-- A closed cut stays closed. -/
theorem isClosedCut (h : Grows s t) (hclosed : s.isClosedCut cut = true) :
    t.isClosedCut cut = true := by
  rw [isClosedCut_iff] at hclosed ⊢
  intro x hx
  obtain ⟨act, hact, hparents⟩ := hclosed x hx
  exact ⟨act, h.acts _ _ hact, hparents⟩

/-- What is registered stays so, and nothing else becomes registered. -/
theorem registered (h : Grows s t) (kind name : String) (cut : Cut) :
    t.registered kind name cut = s.registered kind name cut := by
  rw [MemoryLedger.registered, MemoryLedger.registered, h.registryMetadata]

theorem registryEntries (h : Grows s t) (kind : Option String) (cut : Cut) :
    t.registryEntries kind cut = s.registryEntries kind cut := by
  rw [MemoryLedger.registryEntries, MemoryLedger.registryEntries, h.registryMetadata]

end MemoryLedger.Grows

/-- The Rules a configured resolver finds, given what it reads of the registry. -/
def ConfiguredRuleResolver.rulesOf (rootIdentityHash : Option Hash) (ruleNames : List String)
    (staticRules : Dict String Rule) (entries : List RegistryEntry) : Except Raised (List Rule) :=
  ruleNames.mapM (resolveName rootIdentityHash staticRules
    (Dict.empty.merge (entries.map fun entry => (entry.name, entry))))

/-- **A configured resolver reads the Rules registered at the registry cut**, and nothing
else of the ledger. -/
theorem ConfiguredRuleResolver.run_resolve {rootIdentityHash : Option Hash}
    {ruleNames : List String} {staticRules : Dict String Rule} {command : Command}
    {context : Context} {historyCut registryCut : Cut}
    {known : MemoryLedger → String → String → Cut → Bool} {s : MemoryLedger} :
    ((ConfiguredRuleResolver.resolve rootIdentityHash ruleNames staticRules).resolve command
        context historyCut registryCut).run (MemoryLedger.handle known) s
      = (rulesOf rootIdentityHash ruleNames staticRules
          (s.registryEntries (some "rule") registryCut), s) := by
  change (registryEntries (some "rule") registryCut >>= fun registered =>
    ofExcept (rulesOf rootIdentityHash ruleNames staticRules registered)).run
      (MemoryLedger.handle known) s = _
  rw [run_bind_of_eq MemoryLedger.run_registryEntries, run_ofExcept]

/-! ### What an Act proves -/

/-- **An Act was soundly admitted**: what the ledger holds of it says who signed its Command,
that its cuts and names were in order, and which Rules let it through. -/
structure SoundlyAdmitted (P : Primitives) (rules : RuleResolver) (t : MemoryLedger)
    (request : ActionRequest) (a : Act) (identity : Identity) (command : Command)
    (context : Context) : Prop where
  /-- The ledger holds the Identity, with the key. -/
  identityHeld : t.identities.get? a.identityHash = some identity
  identityHash : identity.hash = a.identityHash
  commandHash : command.hash P = .ok a.commandHash
  contextHash : context.hash P = .ok a.contextHash
  /-- The signature the request presents verifies under that key, over the stored bytes of
  the Command. -/
  signed : ∃ signature canon, decodeSignature request.signature = .ok signature ∧
    canonicalize P command.signingValue = .ok canon ∧
    t.objects.get? a.commandHash = some (canon, "command") ∧
    P.verify identity.publicKey signature canon = true
  /-- The stored Context. -/
  contextStored : ∃ canon, canonicalize P context.canonicalValue = .ok canon ∧
    t.objects.get? a.contextHash = some (canon, "context")
  registryClosed : t.isClosedCut a.registryCut = true
  registry_le : a.registryCut ⊆ a.decisionCut
  decisionClosed : t.isClosedCut a.decisionCut = true
  commandTyped : t.registered "command_type" command.commandType a.registryCut = true
  actTyped : t.registered "act_type" a.actType a.registryCut = true
  keysKnown : ∀ key ∈ context.values.keys,
    t.registered "context_type" key a.registryCut = true
  rulesKnown : ∀ h ∈ a.ruleHashes, t.registered "rule" h a.registryCut = true
  /-- The resolved Rules, by their hashes, and what they answered. -/
  ruled : ∃ resolved results,
    (rules.resolve command context a.decisionCut a.registryCut).run
      (MemoryLedger.handle MemoryLedger.registered) t = (.ok resolved, t) ∧
    a.ruleHashes = resolved.map Rule.hash ∧ a.ruleHashes ≠ [] ∧
    evaluateRules identity command context a.decisionCut resolved = .ok results ∧
    combine results ∈ permittedOutcomes a.actType

namespace AuthorityService

open Runs

variable {P : Primitives} {service : AuthorityService}
  {known : MemoryLedger → String → String → Cut → Bool} {s t : MemoryLedger} {call : Call}
  {a : Act} {calls pre : List Call} {k : Hash} {E : EvaluatedAction}

theorem grows_step (s : MemoryLedger) (call : Call) :
    MemoryLedger.Grows s (step P service known s call) := by
  rcases step_cases P service known s call with hsame | ⟨u, c, a, hsame, hadm, hplaced⟩
  · exact .of_sameHistory hsame
  · exact (MemoryLedger.Grows.of_sameHistory hsame).trans (.of_placed hplaced hadm.fresh)

theorem grows_exec (h : pre <+: calls) :
    MemoryLedger.Grows (exec P service known s pre) (exec P service known s calls) :=
  exec_rel (R := MemoryLedger.Grows) MemoryLedger.Grows.refl MemoryLedger.Grows.trans grows_step h

/-- **Where an Act of a run comes from**: it stood there at the start, or a call committed
it. -/
theorem get?_exec_cases (h : (exec P service known s calls).acts.get? k = some a) :
    s.acts.get? k = some a ∨ ∃ pre call E, Made calls pre call ∧
      Committed P service known (exec P service known s pre)
        (exec P service known s (pre ++ [call])) call.request call.principal E a := by
  induction calls using List.reverseRecOn with
  | nil => exact Or.inl h
  | append_singleton calls call ih =>
    have hold : (exec P service known s calls).acts.get? k = some a →
        s.acts.get? k = some a ∨ ∃ pre call' E, Made (calls ++ [call]) pre call' ∧
          Committed P service known (exec P service known s pre)
            (exec P service known s (pre ++ [call'])) call'.request call'.principal E a := by
      intro hk
      rcases ih hk with hinit | ⟨pre, call', E, hmade, hcommitted⟩
      · exact Or.inl hinit
      · exact Or.inr ⟨pre, call', E, hmade.mono (List.prefix_append _ _), hcommitted⟩
    have hrun : (commit P service call.request call.principal).run (MemoryLedger.handle known)
          (exec P service known s calls)
        = ((answer P service known (exec P service known s calls) call).1,
          exec P service known s (calls ++ [call])) := by
      have hlast : exec P service known s (calls ++ [call])
          = step P service known (exec P service known s calls) call := exec_concat
      rw [hlast]
      rfl
    -- Only a call that commits adds an Act, and it adds one.
    rcases commit_cases hrun with ⟨_, -, hsame⟩ | ⟨E, -, hanswer⟩
    · rw [hsame.acts] at h
      exact hold h
    · rcases hanswer with ⟨_, -, -, -, hsame⟩ | ⟨_, _, _, -, -, -, -, hsame⟩ | ⟨b, -, hcommitted⟩
      · rw [hsame] at h
        exact hold h
      · rw [hsame.acts] at h
        exact hold h
      · obtain ⟨u, hsame, hadm, hplaced, -⟩ := hcommitted.admitted
        rcases (hplaced.get?_iff hadm.fresh).mp h with ⟨-, rfl⟩ | h
        · exact Or.inr ⟨calls, call, E, List.prefix_rfl, hcommitted⟩
        · rw [hsame.acts] at h
          exact hold h

/-- **The Rules behind an admission**, and what they answered. -/
theorem Committed.ruled {principal : Option RequestPrincipal} {request : ActionRequest}
    (h : Committed P service known s t request principal E a) :
    ∃ resolved results,
      (service.rules.resolve E.command E.context a.decisionCut a.registryCut).run
        (MemoryLedger.handle known) s = (.ok resolved, s) ∧
      a.ruleHashes = resolved.map Rule.hash ∧ a.ruleHashes ≠ [] ∧
      evaluateRules E.identity E.command E.context a.decisionCut resolved = .ok results ∧
      combine results ∈ permittedOutcomes a.actType := by
  obtain ⟨u, -, hadm, -⟩ := h.admitted
  obtain ⟨resolved, hresolve, -, hauthorize⟩ := h.evaluation.rules
  obtain ⟨results, hresults, houtcome⟩ := authorize_results hauthorize
  have hdecision : a.decisionCut = E.decision.cut := hadm.act_cut
  have hregistry : a.registryCut = E.decision.registryCut := hadm.registryCut
  have hhashes : a.ruleHashes = E.decision.ruleHashes := hadm.ruleHashes
  refine ⟨resolved, results, ?_, ?_, ?_, ?_, ?_⟩
  · rw [hdecision, hregistry]
    exact hresolve
  · rw [hhashes]
    exact (authorize_ok hauthorize).2.2.1
  · rw [hhashes]
    exact hadm.ruled
  · rw [hdecision]
    exact hresults
  · rw [← houtcome, hadm.actType]
    exact hadm.permitted

theorem Committed.grows {principal : Option RequestPrincipal} {request : ActionRequest}
    (h : Committed P service known s t request principal E a) : MemoryLedger.Grows s t := by
  obtain ⟨u, hsame, hadm, hplaced, -⟩ := h.admitted
  exact (MemoryLedger.Grows.of_sameHistory hsame).trans (.of_placed hplaced hadm.fresh)

/-- **What a call has admitted is soundly admitted from then on**, where the resolver finds
the same Rules in later ledgers. -/
theorem Committed.soundlyAdmitted {principal : Option RequestPrincipal} {request : ActionRequest}
    {v : MemoryLedger}
    (h : Committed P service MemoryLedger.registered s t request principal E a)
    (hlater : MemoryLedger.Grows t v)
    (hresolver : ∀ resolved, (service.rules.resolve E.command E.context a.decisionCut
        a.registryCut).run (MemoryLedger.handle MemoryLedger.registered) s = (.ok resolved, s) →
      (service.rules.resolve E.command E.context a.decisionCut a.registryCut).run
        (MemoryLedger.handle MemoryLedger.registered) v = (.ok resolved, v)) :
    SoundlyAdmitted P service.rules v request a E.identity E.command E.context := by
  -- All was checked in the ledger before the call, or written by it; the rest only grows.
  have hgrows : MemoryLedger.Grows s v := h.grows.trans hlater
  have hE := h.evaluation
  obtain ⟨u, -, hadm, hplaced, -⟩ := h.admitted
  have hidentity : a.identityHash = E.identity.hash := hadm.identityHash
  have hdecision : a.decisionCut = E.decision.cut := hadm.act_cut
  have hregistry : a.registryCut = E.decision.registryCut := hadm.registryCut
  have hhashes : a.ruleHashes = E.decision.ruleHashes := hadm.ruleHashes
  have hcommand := ActionRequest.command_ok hE.command
  obtain ⟨resolved, hresolve, -, hauthorize⟩ := hE.rules
  have hsigner : E.identity.hash = E.command.identityHash := (authorize_ok hauthorize).2.2.2
  constructor
  · rw [hidentity, hsigner, hgrows.identities]
    exact hE.identity
  · exact hidentity.symm
  · exact hadm.commandHash
  · exact hadm.contextHash
  · obtain ⟨canon, hcanon, hstored⟩ := hplaced.commandObject
    refine ⟨E.command.signature, canon, ActionRequest.command_signature hE.command, hcanon,
      hlater.objects _ _ hstored, ?_⟩
    have hverified := hE.verified
    rw [Command.verifies, show canonicalize P E.command.signingValue = .ok canon from hcanon]
      at hverified
    exact hverified
  · obtain ⟨canon, hcanon, hstored⟩ := hplaced.contextObject
    exact ⟨canon, hcanon, hlater.objects _ _ hstored⟩
  · rw [hregistry]
    exact hgrows.isClosedCut hE.registryClosed
  · rw [hregistry, hdecision]
    exact hE.registry_le
  · rw [hdecision]
    exact hgrows.isClosedCut hE.closed
  · rw [hregistry, hgrows.registered, hcommand.1]
    exact hE.commandTyped
  · rw [hregistry, hgrows.registered, hadm.actType, show (submission request E).actType
      = request.actType from hE.actType]
    exact hE.actTyped
  · intro key hkey
    rw [hregistry, hgrows.registered]
    exact hE.keysKnown key hkey
  · intro x hx
    obtain ⟨rules, -, hknown, hauthorize'⟩ := hE.rules
    rw [hhashes, (authorize_ok hauthorize').2.2.1, List.mem_map] at hx
    obtain ⟨rule, hrule, rfl⟩ := hx
    rw [hregistry, hgrows.registered]
    exact hknown rule hrule
  · obtain ⟨resolved, results, hrun, hrest⟩ := h.ruled
    exact ⟨resolved, results, hresolver resolved hrun, hrest⟩

/-- **An Act that a run adds** was committed by one of its calls, and it is soundly
admitted in the ledger at the end. -/
theorem exec_soundlyAdmitted {rootIdentityHash : Option Hash} {ruleNames : List String}
    {staticRules : Dict String Rule} {allow : Bool} (hnew : s.acts.get? k = none)
    (ha : (exec P ⟨ConfiguredRuleResolver.resolve rootIdentityHash ruleNames staticRules, allow⟩
      MemoryLedger.registered s calls).acts.get? k = some a) :
    ∃ pre call E, Made calls pre call ∧
      Committed P ⟨ConfiguredRuleResolver.resolve rootIdentityHash ruleNames staticRules, allow⟩
        MemoryLedger.registered
        (exec P ⟨ConfiguredRuleResolver.resolve rootIdentityHash ruleNames staticRules, allow⟩
          MemoryLedger.registered s pre)
        (exec P ⟨ConfiguredRuleResolver.resolve rootIdentityHash ruleNames staticRules, allow⟩
          MemoryLedger.registered s (pre ++ [call])) call.request call.principal E a ∧
      SoundlyAdmitted P (ConfiguredRuleResolver.resolve rootIdentityHash ruleNames staticRules)
        (exec P ⟨ConfiguredRuleResolver.resolve rootIdentityHash ruleNames staticRules, allow⟩
          MemoryLedger.registered s calls) call.request a E.identity E.command E.context := by
  rcases get?_exec_cases ha with hinit | ⟨pre, call, E, hmade, h⟩
  · rw [hnew] at hinit
    cases hinit
  refine ⟨pre, call, E, hmade, h, h.soundlyAdmitted (grows_exec hmade) fun resolved hrun => ?_⟩
  -- The resolver reads the registry only, and that is the same all along.
  have hgrows := h.grows.trans (grows_exec hmade)
  rw [ConfiguredRuleResolver.run_resolve] at hrun ⊢
  rw [hgrows.registryEntries, (Prod.mk.inj hrun).1]

/-- **Admission is sound.** Whatever calls a run makes of a service with a configured
resolver, every Act it adds was soundly admitted, as the ledger at its end shows. -/
theorem admission_sound (P : Primitives) (rootIdentityHash : Option Hash)
    (ruleNames : List String) (staticRules : Dict String Rule) (allowSignedWithoutOauth : Bool)
    (s : MemoryLedger) (calls : List Call) (k : Hash) (a : Act) (hnew : s.acts.get? k = none)
    (ha : (exec P ⟨ConfiguredRuleResolver.resolve rootIdentityHash ruleNames staticRules,
      allowSignedWithoutOauth⟩ MemoryLedger.registered s calls).acts.get? k = some a) :
    ∃ call ∈ calls, ∃ identity command context,
      SoundlyAdmitted P (ConfiguredRuleResolver.resolve rootIdentityHash ruleNames staticRules)
        (exec P ⟨ConfiguredRuleResolver.resolve rootIdentityHash ruleNames staticRules,
          allowSignedWithoutOauth⟩ MemoryLedger.registered s calls)
        call.request a identity command context := by
  obtain ⟨pre, call, E, hmade, -, hsound⟩ := exec_soundlyAdmitted hnew ha
  exact ⟨call, hmade.mem, E.identity, E.command, E.context, hsound⟩

/-- The Act that makes a thing was soundly admitted. -/
theorem admission_sound_thing : ∃ (a : Act) (call : Call) (identity : Identity)
    (command : Command) (context : Context), a.actType = "ThingCreated" ∧
    SoundlyAdmitted Sample.libraries Sample.authority.rules created call.request a identity command
      context := by
  have hrun : (created.acts.get? ("6441" ++ Sample.pad)).any
      (fun a => decide (a.actType = "ThingCreated")) = true := by
    decide +kernel
  unfold created Sample.authority at hrun ⊢
  rw [Option.any_eq_true] at hrun
  obtain ⟨a, ha, htype⟩ := hrun
  have hnew : Sample.office.acts.get? ("6441" ++ Sample.pad) = none := by decide +kernel
  obtain ⟨call, -, identity, command, context, hsound⟩ :=
    admission_sound Sample.libraries (some Sample.root.hash)
      [ConfiguredRuleResolver.rootAuthorityName] Dict.empty true Sample.office [createCall]
      ("6441" ++ Sample.pad) a hnew ha
  exact ⟨a, call, identity, command, context, of_decide_eq_true htype, hsound⟩

end AuthorityService

end PowerfarmKernel
