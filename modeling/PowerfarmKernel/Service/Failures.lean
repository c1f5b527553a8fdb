import PowerfarmKernel.Kernel.Authorization
import PowerfarmKernel.Service.Evaluation

/-!
# Failures at the service boundary

The protocol reports the failures of the service, each kind under a code of its own
(`call_service` in `protocol/mcp/errors.py`); any other exception passes through it
(`PowerfarmKernel.callService`). The code below the service raises exceptions of other
classes, and the service translates some of them.

`PowerfarmKernel.AuthorityService.EvaluationEscapes` lists those an evaluation lets
through, and `PowerfarmKernel.AuthorityService.raises_evaluate_iff` says that the list is
complete.
-/

namespace PowerfarmKernel

open Prog LedgerM

/-! ### What the protocol reports -/

/-- A failure as the protocol reports it. -/
structure MCPError where
  code : ℤ
  message : String
  powerfarmCode : String

/-- The code of JSON-RPC for parameters that are refused. -/
def invalidParams : ℤ := -32602

/-- What is reported of an exception, if the service means it to be. -/
def mcpError (e : Raised) : Option MCPError :=
  match e.cls with
  | .validationError => some ⟨invalidParams, e.message, "powerfarm.validation_error"⟩
  | .authorizationError => some ⟨-32001, e.message, "powerfarm.authorization_error"⟩
  | .notFoundError => some ⟨-32004, e.message, "powerfarm.not_found"⟩
  | .conflictError => some ⟨-32009, e.message, "powerfarm.conflict"⟩
  | .serviceError => some ⟨-32050, e.message, "powerfarm.service_error"⟩
  | _ => none

/-- **`call_service`**: a failure of the service is reported, and any other exception passes
through. -/
def callService {α : Type} (result : Except Raised α) : Except (MCPError ⊕ Raised) α :=
  match result with
  | .ok a => .ok a
  | .error e =>
      match mcpError e with
      | some failure => .error (.inl failure)
      | none => .error (.inr e)

/-- An exception the protocol reports. -/
def Raised.Typed (e : Raised) : Prop := mcpError e ≠ none

/-- An exception the protocol does not know. -/
def Raised.Untyped (e : Raised) : Prop := mcpError e = none

theorem Raised.Typed.not_untyped {e : Raised} (h : e.Typed) : ¬e.Untyped := h

theorem callService_eq_inr {α : Type} {result : Except Raised α} {e : Raised} :
    callService result = .error (.inr e) ↔ result = .error e ∧ e.Untyped := by
  rcases result with e' | a
  · rw [callService]
    rcases h : mcpError e' with _ | failure
    · simp only [Except.error.injEq, Sum.inr.injEq]
      constructor
      · rintro rfl
        exact ⟨rfl, h⟩
      · exact fun heq => heq.1
    · simp only [Except.error.injEq, reduceCtorEq, false_iff, not_and]
      rintro rfl
      exact Raised.Typed.not_untyped (by rw [Raised.Typed, h]; exact Option.some_ne_none failure)
  · simp [callService]

theorem typed_validationError (text : String) : (validationError text).Typed :=
  Option.some_ne_none _

theorem typed_authorizationError (text : String) : (authorizationError text).Typed :=
  Option.some_ne_none _

theorem typed_notFoundError (text : String) : (notFoundError text).Typed := Option.some_ne_none _

theorem typed_conflictError (text : String) : (conflictError text).Typed := Option.some_ne_none _

/-! ### Objects without an identity -/

section Objects

variable {P : Primitives} {kind : String} {value : CanonValue} {e : Raised}

/-- What an object without an identity raises, the protocol does not know. -/
theorem untyped_of_objectHash (h : objectHash P kind value = .error e) : e.Untyped := by
  rcases objectHash_error h with hcls | hcls <;> rw [Raised.Untyped, mcpError, hcls]

/-- **A value without a canonical form has no identity**, and no other value. -/
theorem objectHash_error_iff (hkind : kind ≠ "" ∧ ':' ∉ kind.toList) :
    (∃ e, objectHash P kind value = .error e) ↔ ∀ canon, canonicalize P value ≠ .ok canon := by
  have htag : ¬(kind = "" ∨ ':' ∈ kind.toList ∨ "v1" = "") := by
    rintro (hempty | hcolon | hversion)
    · exact hkind.1 hempty
    · exact hkind.2 hcolon
    · exact absurd hversion (by decide)
  rw [objectHash, objectHashAt, if_neg htag]
  rcases canonicalize P value with e | canon
  · simp
  · simp

end Objects

/-! ### The parts of an evaluation that raise typed failures only -/

namespace ActionRequest

variable {request : ActionRequest} {value field : String} {e : Raised}

theorem typed_requireHash (h : requireHash value field = .error e) : e.Typed := by
  rw [requireHash] at h
  split at h
  · cases h
  · cases h
    exact typed_validationError _

theorem typed_requireParents {index : ℕ} {parents : List Hash}
    (h : requireParents index parents = .error e) : e.Typed := by
  induction parents generalizing index with
  | nil => cases h
  | cons parent parents ih =>
    rw [requireParents] at h
    split at h
    · rename_i hparent
      cases h
      exact typed_requireHash hparent
    · exact ih h

theorem typed_decodeSignature (h : decodeSignature value = .error e) : e.Typed := by
  rw [decodeSignature] at h
  split at h
  · cases h
    exact typed_validationError _
  · split at h
    · cases h
      exact typed_validationError _
    · cases h

/-- **A request that is no Command raises what the protocol reports.** -/
theorem typed_command (h : request.command = .error e) : e.Typed := by
  rw [command] at h
  rcases hid : requireHash request.identityHash "identity_hash" with e' | identityHash
  · rw [hid] at h
    cases h
    exact typed_requireHash hid
  rcases hpayload : requireHash request.payloadHash "payload_hash" with e' | payloadHash
  · rw [hid, hpayload] at h
    cases h
    exact typed_requireHash hpayload
  rcases hparents : requireParents 0 request.parents with e' | x
  · rw [hid, hpayload, hparents] at h
    cases h
    exact typed_requireParents hparents
  rcases hsig : decodeSignature request.signature with e' | signature
  · rw [hid, hpayload, hparents, hsig] at h
    cases h
    exact typed_decodeSignature hsig
  · rw [hid, hpayload, hparents, hsig] at h
    cases h

end ActionRequest

section Parts

variable {known : MemoryLedger → String → String → Cut → Bool}

/-- An operation of the ledger that never raises. -/
def LedgerOp.IsTotal : LedgerOp → Prop
  | putObject _ _ _ => False
  | commitAct _ _ _ => False
  | getActsForCommand _ => False
  | _ => True

theorem MemoryLedger.not_raises_of_isTotal {o : LedgerOp} (ho : o.IsTotal) {s t : MemoryLedger}
    {e : Raised} (h : MemoryLedger.handle known o s = (.error e, t)) : False := by
  cases o <;> first | exact ho | cases h

theorem raisesOnly_call {φ : Raised → Prop} {o : LedgerOp} (ho : o.IsTotal) :
    RaisesOnly (MemoryLedger.handle known) φ (Prog.call o) :=
  .call fun _ _ _ h => (MemoryLedger.not_raises_of_isTotal ho h).elim

theorem IdentityService.raisesOnly_resolveRequester (allow : Bool) (performer : Identity)
    (principal : Option RequestPrincipal) (cut : Cut) :
    RaisesOnly (MemoryLedger.handle known) Raised.Typed
      (resolveRequester allow performer principal cut) := by
  rcases principal with _ | principal
  · exact .ite (.raise (typed_authorizationError _)) (.pure _)
  · refine .bind (raisesOnly_call trivial) fun resolved => ?_
    rcases resolved with _ | requesterHash
    · exact .raise (typed_authorizationError _)
    · refine .ite (.pure _) (.bind (raisesOnly_call trivial) fun found => ?_)
      rcases found with _ | requester
      · exact .raise (typed_authorizationError _)
      · exact .pure _

namespace AuthorityService

theorem raisesOnly_performer (command : Command) (cut : Cut) :
    RaisesOnly (MemoryLedger.handle known) Raised.Typed (performer command cut) := by
  refine .bind (raisesOnly_call trivial) fun found => ?_
  rcases found with _ | identity
  · exact .raise (typed_notFoundError _)
  · exact .pure _

theorem raisesOnly_validateRegistry (request : ActionRequest) (context : Context) (cut : Cut) :
    RaisesOnly (MemoryLedger.handle known) Raised.Typed (validateRegistry request context cut) := by
  refine .bind (raisesOnly_call trivial) fun _ =>
    .bind (.raiseWhen _ (typed_validationError _)) fun _ => ?_
  refine .bind (raisesOnly_call trivial) fun _ =>
    .bind (.raiseWhen _ (typed_validationError _)) fun _ => ?_
  exact .forM (f := requireContextType cut) (fun _ => .bind (raisesOnly_call trivial) fun _ =>
    .raiseWhen _ (typed_validationError _)) _

end AuthorityService

end Parts

/-- **A configured resolver raises what the protocol reports.** -/
theorem ConfiguredRuleResolver.raisesOnly_resolve
    {known : MemoryLedger → String → String → Cut → Bool} (rootIdentityHash : Option Hash)
    (ruleNames : List String) (staticRules : Dict String Rule) (command : Command)
    (context : Context) (historyCut registryCut : Cut) :
    RaisesOnly (MemoryLedger.handle known) Raised.Typed
      ((resolve rootIdentityHash ruleNames staticRules).resolve command context historyCut
        registryCut) := by
  refine .bind (raisesOnly_call trivial) fun registered => .ofExcept ?_
  have hname : ∀ (entries : Dict String RegistryEntry) (name : String) (e : Raised),
      resolveName rootIdentityHash staticRules entries name = .error e → e.Typed := by
    intro entries name e h
    rw [resolveName] at h
    split at h
    · split at h
      · cases h
        exact typed_validationError _
      · cases h
    · cases h
      exact typed_validationError _
    · split at h
      · split at h
        · split at h
          · cases h
            exact typed_authorizationError _
          · cases h
        · cases h
          exact typed_validationError _
      · cases h
        exact typed_validationError _
  intro e h
  obtain ⟨name, -, he⟩ := Results.mapM_error h
  exact hname _ name e he

/-! ### A Context that cannot be built -/

/-- **The keys of a Context do not match**: a key of the caller's own has a value and no type,
or a type and no value. -/
def Mismatched (request : ActionRequest) : Prop :=
  ∃ key ∉ derivedContextKeys,
    ¬(key ∈ request.contextValues.keys ↔ key ∈ request.contextTypes.keys)

/-- **When a request that supplies none of the service's keys has no Context.** -/
theorem ActionRequest.untyped_context_iff {request : ActionRequest}
    {facts : List (String × String)} (hfacts : ∀ key, key ∈ facts.map Prod.fst ↔
      key ∈ derivedContextKeys) :
    (∃ e, request.context facts = .error e ∧ e.Untyped) ↔
      (∀ key ∈ derivedContextKeys, key ∉ request.contextValues.keys) ∧ Mismatched request := by
  have hsupplied : derivedContextKeys.filter (fun key => key ∈ request.contextValues.keys) ≠ [] ↔
      ¬∀ key ∈ derivedContextKeys, key ∉ request.contextValues.keys := by
    rw [ne_eq, List.filter_eq_nil_iff]
    simp only [decide_eq_true_eq]
  have hkeys : ∀ {ν : Type} (d : Dict String ν) (value : String × String → ν) (key : String),
      key ∈ (d.merge (facts.map fun e => (e.1, value e))).keys ↔
        key ∈ d.keys ∨ key ∈ derivedContextKeys := by
    intro ν d value key
    rw [Dict.mem_keys_merge, ← hfacts key]
    simp only [List.mem_map, Prod.mk.injEq, Prod.exists]
    grind
  rw [ActionRequest.context]
  by_cases hown : ∀ key ∈ derivedContextKeys, key ∉ request.contextValues.keys
  · rw [if_neg (not_not.mpr hown |> mt hsupplied.mp), Context.build]
    split
    · rename_i hsame
      refine iff_of_false (fun h => by obtain ⟨e, h, -⟩ := h; cases h) ?_
      rintro ⟨-, key, hfree, hdiffers⟩
      have hkey := congrArg (key ∈ ·) hsame
      simp only [Dict.mem_keySet, hkeys, hfree, or_false, eq_iff_iff] at hkey
      exact hdiffers hkey
    · rename_i hdiffers
      refine iff_of_true ⟨_, rfl, rfl⟩ ⟨hown, ?_⟩
      by_contra hmatched
      refine hdiffers (Finset.ext fun key => ?_)
      rw [Dict.mem_keySet, Dict.mem_keySet, hkeys, hkeys]
      by_cases hfree : key ∈ derivedContextKeys
      · simp [hfree]
      · simp only [hfree, or_false]
        by_contra hkey
        exact hmatched ⟨key, hfree, hkey⟩
  · -- A key of the service was supplied: that is a ValidationError.
    rw [if_pos (hsupplied.mpr hown)]
    refine iff_of_false ?_ fun h => hown h.1
    rintro ⟨e, heq, huntyped⟩
    cases heq
    exact typed_validationError _ huntyped

/-! ### Rules that raise -/

/-- **A list of Rules fails**: after Rules that answer, one misses a key it declares, or
raises what the protocol does not know. -/
def RulesFail (identity : Identity) (command : Command) (context : Context) (historyCut : Cut)
    (rules : List Rule) : Prop :=
  ∃ pre rule post, rules = pre ++ rule :: post ∧
    (∀ r ∈ pre, ∃ result, r.Answers identity command context historyCut result) ∧
    ((∃ key ∈ rule.contextKeys, key ∉ context.values.keys) ∨
      (∀ key ∈ rule.contextKeys, key ∈ context.values.keys) ∧
        ∃ e, rule.evaluate identity command context historyCut = .error e ∧ e.Untyped)

section Rules

variable {identity : Identity} {command : Command} {context : Context}
  {historyCut registryCut : Cut} {rule : Rule} {rules : List Rule}

/-- One Rule more fails first, or answers and leaves it to the others. -/
theorem rulesFail_cons : RulesFail identity command context historyCut (rule :: rules) ↔
    (∃ key ∈ rule.contextKeys, key ∉ context.values.keys) ∨
      (∀ key ∈ rule.contextKeys, key ∈ context.values.keys) ∧
        ((∃ e, rule.evaluate identity command context historyCut = .error e ∧ e.Untyped) ∨
          (∃ result, rule.evaluate identity command context historyCut = .ok result) ∧
            RulesFail identity command context historyCut rules) := by
  constructor
  · rintro ⟨pre, failing, post, hsplit, hpre, hfails⟩
    -- Either this Rule is the one that fails, or it is one of those that answered.
    rcases pre with _ | ⟨earlier, pre⟩
    · cases hsplit
      rcases hfails with hmissing | ⟨hkeys, hraises⟩
      · exact Or.inl hmissing
      · exact Or.inr ⟨hkeys, Or.inl hraises⟩
    · cases hsplit
      obtain ⟨result, hanswer⟩ := hpre rule List.mem_cons_self
      exact Or.inr ⟨hanswer.declared, Or.inr ⟨⟨result, hanswer.evaluated⟩, pre, failing, post, rfl,
        fun r hr => hpre r (List.mem_cons_of_mem rule hr), hfails⟩⟩
  · rintro (hmissing | ⟨hkeys, hraises | ⟨⟨result, heval⟩, pre, failing, post, rfl, hpre, hfails⟩⟩)
    · exact ⟨[], rule, rules, rfl, by simp, Or.inl hmissing⟩
    · exact ⟨[], rule, rules, rfl, by simp, Or.inr ⟨hkeys, hraises⟩⟩
    · refine ⟨rule :: pre, failing, post, rfl, fun r hr => ?_, hfails⟩
      rcases List.mem_cons.mp hr with rfl | hr
      · exact ⟨result, hkeys, heval⟩
      · exact hpre r hr

/-- **What Rules raise that the protocol does not know**, is raised when they fail. -/
theorem untyped_evaluateRules_iff :
    (∃ e, evaluateRules identity command context historyCut rules = .error e ∧ e.Untyped) ↔
      RulesFail identity command context historyCut rules := by
  -- The first Rule that fails decides; the ones before it have answered.
  induction rules with
  | nil =>
    refine iff_of_false (fun h => by obtain ⟨e, h, -⟩ := h; cases h) ?_
    rintro ⟨pre, rule, post, hsplit, -⟩
    exact absurd hsplit (by simp)
  | cons rule rules ih =>
    have hkeys : rule.contextKeys.filter (fun key => key ∉ context.values.keys) = ∅ ↔
        ∀ key ∈ rule.contextKeys, key ∈ context.values.keys := by
      rw [Finset.filter_eq_empty_iff]
      simp only [not_not]
    rw [rulesFail_cons, evaluateRules]
    split
    · rename_i hmissing
      have hkey : ∃ key ∈ rule.contextKeys, key ∉ context.values.keys := by
        by_contra hall
        push Not at hall
        exact hmissing (hkeys.mpr hall)
      exact iff_of_true ⟨_, rfl, rfl⟩ (Or.inl hkey)
    · rename_i hmissing
      have hall := hkeys.mp (not_not.mp hmissing)
      have hnone : ¬∃ key ∈ rule.contextKeys, key ∉ context.values.keys := by
        rintro ⟨key, hkey, hnot⟩
        exact hnot (hall key hkey)
      rw [or_iff_right hnone, and_iff_right hall, ← ih]
      rcases rule.evaluate identity command context historyCut with e | result
      · simp
      · rcases evaluateRules identity command context historyCut rules with e | results
        · simp
        · simp

/-- **What `authorize` raises that the protocol does not know**, given a Rule at all. -/
theorem untyped_authorize_iff (hne : rules ≠ []) :
    (∃ e, authorize identity command context historyCut registryCut rules = .error e ∧
        e.Untyped) ↔
      identity.hash ≠ command.identityHash ∨
        RulesFail identity command context historyCut rules := by
  rw [authorize]
  split
  · rename_i hid
    exact iff_of_true ⟨_, rfl, rfl⟩ (Or.inl hid)
  · rename_i hid
    rw [or_iff_right hid, ← untyped_evaluateRules_iff]
    rcases heval : evaluateRules identity command context historyCut rules with e | results
    · simp
    · have hresults : results ≠ [] := by
        rintro rfl
        exact hne (List.forall₂_nil_right_iff.mp (evaluateRules_ok_iff.mp heval))
      simp [hresults]

end Rules

/-! ### How far an evaluation gets -/

namespace AuthorityService

variable {P : Primitives} {service : AuthorityService}
  {known : MemoryLedger → String → String → Cut → Bool} {s t : MemoryLedger}
  {request : ActionRequest} {principal : Option RequestPrincipal} {command : Command}
  {identity : Identity} {requester : Hash × String} {context : Context} {rules : List Rule}
  {historyCut registryCut : Cut}

/-- The history cut a request is decided at. -/
def decisionCutOf (s : MemoryLedger) (request : ActionRequest) : Cut :=
  request.historyCut.getD s.historyCut

/-- The registry cut it is judged by. -/
def registryCutOf (s : MemoryLedger) (request : ActionRequest) : Cut :=
  request.registryCut.getD (decisionCutOf s request)

/-- **An evaluation knows who asks**: the Command is well formed, the cuts are in order, the
Identity stands, its signature verifies, and the requester is resolved. -/
structure Presented (P : Primitives) (service : AuthorityService)
    (known : MemoryLedger → String → String → Cut → Bool) (s : MemoryLedger)
    (request : ActionRequest) (principal : Option RequestPrincipal) (command : Command)
    (identity : Identity) (requester : Hash × String) : Prop where
  wellFormed : request.command = .ok command
  closed : s.isClosedCut (decisionCutOf s request) = true
  registryClosed : s.isClosedCut (registryCutOf s request) = true
  registry_le : registryCutOf s request ⊆ decisionCutOf s request
  found : s.identities.get? command.identityHash = some identity
  verified : command.verifies P identity = true
  resolved : (IdentityService.resolveRequester service.allowSignedWithoutOauth identity principal
    (decisionCutOf s request)).run (MemoryLedger.handle known) s = (.ok requester, s)

/-- **An evaluation has validated a request**: its payload is the one the Command names, or
is stored, and its names are registered. -/
structure Validated (P : Primitives) (known : MemoryLedger → String → String → Cut → Bool)
    (s : MemoryLedger) (request : ActionRequest) (context : Context) : Prop where
  payloadGiven : ∀ payload, request.payload = some payload →
    objectHash P "payload" payload = .ok request.payloadHash
  payloadStored : request.payload = none → (s.objects.get? request.payloadHash).isSome
  commandTyped : known s "command_type" request.commandType (registryCutOf s request) = true
  actTyped : known s "act_type" request.actType (registryCutOf s request) = true
  keysKnown : ∀ key ∈ context.values.keys,
    known s "context_type" key (registryCutOf s request) = true

/-- The last part of an evaluation: the Rules are found, and decide. -/
def judge (service : AuthorityService) (request : ActionRequest) (command : Command)
    (identity : Identity) (context : Context) (historyCut registryCut : Cut) :
    LedgerM EvaluatedAction := do
  let rules ← service.rules.resolve command context historyCut registryCut
  raiseWhen (rules.isEmpty = true)
    (authorizationError "no applicable Rules; authorization fails closed")
  let stray ← rules.anyM fun rule => do
    let known ← registered "rule" rule.hash registryCut
    return !known
  raiseWhen (stray = true) (validationError "Rule is not registered at declared Registry cut")
  let decision ← ofExcept (authorize identity command context historyCut registryCut rules)
  return { identity, command, context, decision, actType := request.actType
           authChain := request.authChain, payload := request.payload }

/-- The part before it: the Context is built, and the request validated. -/
def weigh (P : Primitives) (service : AuthorityService) (request : ActionRequest)
    (principal : Option RequestPrincipal) (command : Command) (identity : Identity)
    (requester : Hash × String) (historyCut registryCut : Cut) : LedgerM EvaluatedAction := do
  let context ← ofExcept (request.context (derived identity requester principal))
  validatePayload P request
  validateRegistry request context registryCut
  judge service request command identity context historyCut registryCut

/-- Sequencing with a part that reads, and raises typed failures only. -/
theorem raises_read_bind_iff {α β : Type} {p : LedgerM α} {f : α → LedgerM β}
    (hreads : p.Only LedgerOp.IsRead)
    (htyped : RaisesOnly (MemoryLedger.handle known) Raised.Typed p) :
    (p >>= f).Raises (MemoryLedger.handle known) Raised.Untyped s ↔
      ∃ a, p.run (MemoryLedger.handle known) s = (.ok a, s) ∧
        (f a).Raises (MemoryLedger.handle known) Raised.Untyped s := by
  rw [raises_bind_iff, or_iff_right (htyped.not_raises (fun _ => Raised.Typed.not_untyped) s)]
  constructor
  · rintro ⟨a, t, hrun, hraises⟩
    have ht : t = s := hreads.run_eq (fun _ ho s => MemoryLedger.handle_isRead ho s) hrun
    rw [ht] at hrun hraises
    exact ⟨a, hrun, hraises⟩
  · rintro ⟨a, hrun, hraises⟩
    exact ⟨a, s, hrun, hraises⟩

theorem run_performer_iff {cut : Cut} :
    (performer command cut).run (MemoryLedger.handle known) s = (.ok identity, s) ↔
      s.identities.get? command.identityHash = some identity := by
  refine ⟨fun hrun => (run_performer_ok hrun).2, fun hfound => ?_⟩
  rw [performer, run_bind_of_eq MemoryLedger.run_getIdentity, hfound]
  rfl

/-- **Until it knows who asks, an evaluation lets nothing through.** -/
theorem raises_evaluate_iff_weigh :
    (evaluate P service request principal).Raises (MemoryLedger.handle known) Raised.Untyped s ↔
      ∃ command identity requester,
        Presented P service known s request principal command identity requester ∧
        (weigh P service request principal command identity requester (decisionCutOf s request)
          (registryCutOf s request)).Raises (MemoryLedger.handle known) Raised.Untyped s := by
  have hcommand : ¬∃ e, request.command = .error e ∧ e.Untyped := by
    rintro ⟨e, he, huntyped⟩
    exact ActionRequest.typed_command he huntyped
  rw [evaluate, raises_ofExcept_bind_iff, or_iff_right hcommand]
  refine exists_congr fun command => ?_
  rw [raises_bind_of_eq MemoryLedger.run_historyCut]
  change _ ∧ (evaluateAt P service request principal command (decisionCutOf s request)
    (registryCutOf s request)).Raises _ _ _ ↔ _
  -- Each check on the way raises typed errors only, so it is passed or out of the question.
  rw [evaluateAt, raises_bind_of_eq MemoryLedger.run_isClosedCut,
    raises_raiseWhen_bind_iff (typed_validationError _).not_untyped,
    raises_bind_of_eq MemoryLedger.run_isClosedCut,
    raises_raiseWhen_bind_iff (typed_validationError _).not_untyped,
    raises_read_bind_iff (only_performer _ _) (raisesOnly_performer _ _)]
  simp only [run_performer_iff,
    raises_raiseWhen_bind_iff (typed_authorizationError _).not_untyped,
    raises_read_bind_iff (IdentityService.only_resolveRequester _ _ _ _)
      (IdentityService.raisesOnly_resolveRequester _ _ _ _)]
  constructor
  · rintro ⟨hcommand, hclosed, hregistry, identity, hidentity, hverified, requester, hrequester,
      hraises⟩
    rw [not_or, not_not] at hregistry
    exact ⟨identity, requester, {
      wellFormed := hcommand
      closed := eq_true_of_ne_false hclosed
      registryClosed := eq_true_of_ne_false hregistry.1
      registry_le := hregistry.2
      found := hidentity
      verified := eq_true_of_ne_false hverified
      resolved := hrequester }, hraises⟩
  · rintro ⟨identity, requester, h, hraises⟩
    exact ⟨h.wellFormed, ne_false_of_eq_true h.closed,
      not_or.mpr ⟨ne_false_of_eq_true h.registryClosed, not_not.mpr h.registry_le⟩, identity,
      h.found, ne_false_of_eq_true h.verified, requester, h.resolved, hraises⟩

/-- The payload check, when it passes. -/
theorem run_validatePayload_iff {x : Unit} :
    (validatePayload P request).run (MemoryLedger.handle known) s = (.ok x, s) ↔
      (∀ payload, request.payload = some payload →
        objectHash P "payload" payload = .ok request.payloadHash) ∧
        (request.payload = none → (s.objects.get? request.payloadHash).isSome) := by
  refine ⟨fun hrun => (run_validatePayload_ok hrun).2, ?_⟩
  rintro ⟨hgiven, hstored⟩
  rw [validatePayload]
  rcases hpayload : request.payload with _ | payload
  · dsimp only
    rw [run_bind_of_eq MemoryLedger.run_hasObject]
    exact run_raiseWhen_ok.mpr ⟨ne_false_of_eq_true (hstored hpayload), rfl⟩
  · exact run_ofExcept_bind_ok.mpr ⟨_, hgiven payload hpayload,
      run_raiseWhen_ok.mpr ⟨not_not.mpr rfl, rfl⟩⟩

/-- **A payload without a canonical form** is the one thing the payload check lets through. -/
theorem raises_validatePayload_iff :
    (validatePayload P request).Raises (MemoryLedger.handle known) Raised.Untyped s ↔
      ∃ payload, request.payload = some payload ∧ ∀ canon, canonicalize P payload ≠ .ok canon := by
  have htyped : ∀ {c : Prop} [Decidable c] {e : Raised}, e.Typed →
      ¬(raiseWhen c e : LedgerM Unit).Raises (MemoryLedger.handle known) Raised.Untyped s :=
    fun he => RaisesOnly.not_raises (.raiseWhen _ he) (fun _ => Raised.Typed.not_untyped) s
  rw [validatePayload]
  rcases hpayload : request.payload with _ | payload
  · dsimp only
    rw [raises_bind_of_eq MemoryLedger.run_hasObject]
    exact iff_of_false (htyped (typed_notFoundError _)) (by simp)
  · dsimp only
    have hformless : (∃ e, objectHash P "payload" payload = .error e) ↔
        ∀ canon, canonicalize P payload ≠ .ok canon := objectHash_error_iff (by decide)
    rw [raises_ofExcept_bind_iff, or_iff_left]
    · simp only [Option.some.injEq, exists_eq_left', ← hformless]
      refine exists_congr fun e => and_iff_left_of_imp ?_
      exact untyped_of_objectHash
    · rintro ⟨actual, -, hraises⟩
      exact htyped (typed_validationError _) hraises

/-- The registry check, when it passes. -/
theorem run_validateRegistry_iff {cut : Cut} {x : Unit} :
    (validateRegistry request context cut).run (MemoryLedger.handle known) s = (.ok x, s) ↔
      known s "command_type" request.commandType cut = true ∧
        known s "act_type" request.actType cut = true ∧
        ∀ key ∈ context.values.keys, known s "context_type" key cut = true := by
  refine ⟨fun hrun => (run_validateRegistry_ok hrun).2, ?_⟩
  rintro ⟨hcommand, hact, hkeys⟩
  rw [validateRegistry, run_bind_of_eq MemoryLedger.run_registered]
  refine run_raiseWhen_bind_ok.mpr ⟨ne_false_of_eq_true hcommand, ?_⟩
  rw [run_bind_of_eq MemoryLedger.run_registered]
  refine run_raiseWhen_bind_ok.mpr ⟨ne_false_of_eq_true hact, ?_⟩
  generalize context.values.keys = keys at hkeys ⊢
  induction keys with
  | nil => rfl
  | cons key keys ih =>
    have hfirst : (requireContextType cut key).run (MemoryLedger.handle known) s = (.ok (), s) := by
      rw [requireContextType, run_bind_of_eq MemoryLedger.run_registered]
      exact run_raiseWhen_ok.mpr ⟨ne_false_of_eq_true (hkeys key List.mem_cons_self), rfl⟩
    exact (run_bind_of_eq hfirst).trans (ih fun k hk => hkeys k (List.mem_cons_of_mem key hk))

/-- **An evaluation returns exactly what its checks describe.** -/
theorem evaluate_ok_iff {E : EvaluatedAction} :
    (evaluate P service request principal).run (MemoryLedger.handle known) s = (.ok E, s) ↔
      Evaluation P service known s request principal E := by
  refine ⟨fun hrun => (evaluate_ok hrun).2, fun h => ?_⟩
  obtain ⟨requester, hrequester, hcontext⟩ := h.context
  obtain ⟨rules, hresolve, hknown, hdecision⟩ := h.rules
  have hne : rules.isEmpty ≠ true := by
    obtain ⟨-, hne, -⟩ := authorize_ok_iff.mp hdecision
    exact mt List.isEmpty_iff.mp hne
  -- The checks in their order; what is read never changes the ledger.
  rw [evaluate, h.command, run_bind_of_eq (run_ofExcept _),
    run_bind_of_eq MemoryLedger.run_historyCut]
  dsimp only
  rw [← h.cut, ← h.registryCut, evaluateAt, run_bind_of_eq MemoryLedger.run_isClosedCut]
  refine run_raiseWhen_bind_ok.mpr ⟨ne_false_of_eq_true h.closed, ?_⟩
  rw [run_bind_of_eq MemoryLedger.run_isClosedCut]
  refine run_raiseWhen_bind_ok.mpr
    ⟨not_or.mpr ⟨ne_false_of_eq_true h.registryClosed, not_not.mpr h.registry_le⟩, ?_⟩
  rw [run_bind_of_eq (run_performer_iff.mpr h.identity)]
  refine run_raiseWhen_bind_ok.mpr ⟨ne_false_of_eq_true h.verified, ?_⟩
  rw [run_bind_of_eq hrequester]
  refine run_ofExcept_bind_ok.mpr ⟨_, hcontext, ?_⟩
  have hpayload : (validatePayload P request).run (MemoryLedger.handle known) s = (.ok (), s) :=
    run_validatePayload_iff.mpr ⟨h.payloadGiven, h.payloadStored⟩
  have hnames : (validateRegistry request E.context E.decision.registryCut).run
      (MemoryLedger.handle known) s = (.ok (), s) :=
    run_validateRegistry_iff.mpr ⟨h.commandTyped, h.actTyped, h.keysKnown⟩
  rw [run_bind_of_eq hpayload, run_bind_of_eq hnames, run_bind_of_eq hresolve]
  refine run_raiseWhen_bind_ok.mpr ⟨hne, ?_⟩
  rw [run_bind_of_eq (run_anyM_not (fun _ => MemoryLedger.run_registered) _)]
  refine run_raiseWhen_bind_ok.mpr ⟨not_any_not_of_all hknown, ?_⟩
  refine run_ofExcept_bind_ok.mpr ⟨_, hdecision, ?_⟩
  rw [← h.actType, ← h.authChain, ← h.payload]
  rfl

/-- **What the last part of an evaluation lets through**: what the resolver raises, and what
the Rules do. -/
theorem raises_judge_iff :
    (judge service request command identity context historyCut registryCut).Raises
        (MemoryLedger.handle known) Raised.Untyped s ↔
      (service.rules.resolve command context historyCut registryCut).Raises
          (MemoryLedger.handle known) Raised.Untyped s ∨
        ∃ rules, (service.rules.resolve command context historyCut registryCut).run
            (MemoryLedger.handle known) s = (.ok rules, s) ∧ rules ≠ [] ∧
          (∀ rule ∈ rules, known s "rule" rule.hash registryCut = true) ∧
          (identity.hash ≠ command.identityHash ∨
            RulesFail identity command context historyCut rules) := by
  have hreads := service.rules.reads command context historyCut registryCut
  rw [judge, raises_bind_iff]
  refine or_congr_right ?_
  have hrest : ∀ rules : List Rule, (do
      raiseWhen (rules.isEmpty = true)
        (authorizationError "no applicable Rules; authorization fails closed")
      let stray ← rules.anyM fun rule => do
        let known ← registered "rule" rule.hash registryCut
        return !known
      raiseWhen (stray = true) (validationError "Rule is not registered at declared Registry cut")
      let decision ← ofExcept (authorize identity command context historyCut registryCut rules)
      return { identity, command, context, decision, actType := request.actType
               authChain := request.authChain, payload := request.payload } :
          LedgerM EvaluatedAction).Raises (MemoryLedger.handle known) Raised.Untyped s ↔
      rules ≠ [] ∧ (∀ rule ∈ rules, known s "rule" rule.hash registryCut = true) ∧
        (identity.hash ≠ command.identityHash ∨
          RulesFail identity command context historyCut rules) := by
    intro rules
    rw [raises_raiseWhen_bind_iff (typed_authorizationError _).not_untyped,
      raises_bind_of_eq (run_anyM_not (fun _ => MemoryLedger.run_registered) _),
      raises_raiseWhen_bind_iff (typed_validationError _).not_untyped, raises_ofExcept_bind_iff,
      or_iff_left (by rintro ⟨decision, -, hraises⟩; exact not_raises_pure hraises),
      List.isEmpty_iff]
    refine and_congr_right fun hne => ?_
    rw [untyped_authorize_iff hne]
    exact and_congr_left fun _ => ⟨all_of_not_any_not, not_any_not_of_all⟩
  constructor
  · rintro ⟨rules, t, hrun, hraises⟩
    have ht : t = s := hreads.run_eq (fun _ ho s => MemoryLedger.handle_isRead ho s) hrun
    rw [ht] at hrun hraises
    exact ⟨rules, hrun, (hrest rules).mp hraises⟩
  · rintro ⟨rules, hrun, hfails⟩
    exact ⟨rules, s, hrun, (hrest rules).mpr hfails⟩

theorem mem_derived_iff (key : String) :
    key ∈ (derived identity requester principal).map Prod.fst ↔ key ∈ derivedContextKeys := by
  change key ∈ [requestedBy, performedBy, requesterKind, oauthClient] ↔
    key ∈ [oauthClient, performedBy, requestedBy, requesterKind]
  simp only [List.mem_cons, List.not_mem_nil, or_false]
  tauto

/-- **What the part before it lets through**: a Context whose keys do not match, and a payload
without a canonical form. -/
theorem raises_weigh_iff :
    (weigh P service request principal command identity requester (decisionCutOf s request)
        (registryCutOf s request)).Raises (MemoryLedger.handle known) Raised.Untyped s ↔
      ((∀ key ∈ derivedContextKeys, key ∉ request.contextValues.keys) ∧ Mismatched request) ∨
        ∃ context, request.context (derived identity requester principal) = .ok context ∧
          ((∃ payload, request.payload = some payload ∧
              ∀ canon, canonicalize P payload ≠ .ok canon) ∨
            Validated P known s request context ∧
              (judge service request command identity context (decisionCutOf s request)
                (registryCutOf s request)).Raises
                  (MemoryLedger.handle known) Raised.Untyped s) := by
  rw [weigh, raises_ofExcept_bind_iff, ActionRequest.untyped_context_iff mem_derived_iff]
  -- The Context is built; the payload is looked at before the registry is.
  refine or_congr_right (exists_congr fun context => and_congr_right fun _ => ?_)
  rw [raises_bind_iff, raises_validatePayload_iff]
  refine or_congr_right ?_
  constructor
  · rintro ⟨x, t, hrun, hraises⟩
    obtain ⟨ht, hgiven, hstored⟩ := run_validatePayload_ok hrun
    rw [ht] at hraises
    obtain ⟨y, hregistry, hraises⟩ := (raises_read_bind_iff (only_validateRegistry _ _ _)
      (raisesOnly_validateRegistry _ _ _)).mp hraises
    obtain ⟨hcommand, hact, hkeys⟩ := run_validateRegistry_iff.mp hregistry
    exact ⟨⟨hgiven, hstored, hcommand, hact, hkeys⟩, hraises⟩
  · rintro ⟨h, hraises⟩
    refine ⟨(), s, run_validatePayload_iff.mpr ⟨h.payloadGiven, h.payloadStored⟩, ?_⟩
    exact (raises_read_bind_iff (only_validateRegistry _ _ _)
      (raisesOnly_validateRegistry _ _ _)).mpr ⟨(), run_validateRegistry_iff.mpr
        ⟨h.commandTyped, h.actTyped, h.keysKnown⟩, hraises⟩

/-! ### What an evaluation lets through -/

/-- **An exception escapes an evaluation**, and where. -/
inductive EvaluationEscapes (P : Primitives) (service : AuthorityService)
    (known : MemoryLedger → String → String → Cut → Bool) (s : MemoryLedger)
    (request : ActionRequest) (principal : Option RequestPrincipal) : Prop
  /-- The keys of the Context do not match: a `ValueError`. -/
  | context {command : Command} {identity : Identity} {requester : Hash × String}
      (presented : Presented P service known s request principal command identity requester)
      (unsupplied : ∀ key ∈ derivedContextKeys, key ∉ request.contextValues.keys)
      (mismatched : Mismatched request)
  /-- The payload has no canonical form: a `CanonicalizationError`. -/
  | payload {command : Command} {identity : Identity} {requester : Hash × String}
      {context : Context} {payload : CanonValue}
      (presented : Presented P service known s request principal command identity requester)
      (built : request.context (derived identity requester principal) = .ok context)
      (given : request.payload = some payload)
      (formless : ∀ canon, canonicalize P payload ≠ .ok canon)
  /-- The resolver raises an exception of its own. -/
  | resolver {command : Command} {identity : Identity} {requester : Hash × String}
      {context : Context}
      (presented : Presented P service known s request principal command identity requester)
      (built : request.context (derived identity requester principal) = .ok context)
      (validated : Validated P known s request context)
      (raises : (service.rules.resolve command context (decisionCutOf s request)
        (registryCutOf s request)).Raises (MemoryLedger.handle known) Raised.Untyped s)
  /-- The Identity the ledger holds is not the one the Command names, or the Rules fail: a
  `RuleError`, or what a Rule raises. -/
  | rules {command : Command} {identity : Identity} {requester : Hash × String}
      {context : Context} {rules : List Rule}
      (presented : Presented P service known s request principal command identity requester)
      (built : request.context (derived identity requester principal) = .ok context)
      (validated : Validated P known s request context)
      (resolved : (service.rules.resolve command context (decisionCutOf s request)
        (registryCutOf s request)).run (MemoryLedger.handle known) s = (.ok rules, s))
      (ruled : rules ≠ [])
      (registered : ∀ rule ∈ rules, known s "rule" rule.hash (registryCutOf s request) = true)
      (fails : identity.hash ≠ command.identityHash ∨
        RulesFail identity command context (decisionCutOf s request) rules)

/-- **An evaluation lets through what the list says**, and nothing else. -/
theorem raises_evaluate_iff :
    (evaluate P service request principal).Raises (MemoryLedger.handle known) Raised.Untyped s ↔
      EvaluationEscapes P service known s request principal := by
  simp only [raises_evaluate_iff_weigh, raises_weigh_iff, raises_judge_iff]
  constructor
  · rintro ⟨command, identity, requester, hpresented, ⟨hunsupplied, hmismatched⟩ |
      ⟨context, hbuilt, ⟨payload, hgiven, hformless⟩ | ⟨hvalidated, hraises |
        ⟨rules, hresolved, hne, hregistered, hfails⟩⟩⟩⟩
    · exact .context hpresented hunsupplied hmismatched
    · exact .payload hpresented hbuilt hgiven hformless
    · exact .resolver hpresented hbuilt hvalidated hraises
    · exact .rules hpresented hbuilt hvalidated hresolved hne hregistered hfails
  · rintro (⟨hpresented, hunsupplied, hmismatched⟩ | ⟨hpresented, hbuilt, hgiven, hformless⟩ |
      ⟨hpresented, hbuilt, hvalidated, hraises⟩ |
      ⟨hpresented, hbuilt, hvalidated, hresolved, hne, hregistered, hfails⟩)
    · exact ⟨_, _, _, hpresented, Or.inl ⟨hunsupplied, hmismatched⟩⟩
    · exact ⟨_, _, _, hpresented, Or.inr ⟨_, hbuilt, Or.inl ⟨_, hgiven, hformless⟩⟩⟩
    · exact ⟨_, _, _, hpresented, Or.inr ⟨_, hbuilt, Or.inr ⟨hvalidated, Or.inl hraises⟩⟩⟩
    · exact ⟨_, _, _, hpresented, Or.inr ⟨_, hbuilt, Or.inr ⟨hvalidated, Or.inr ⟨_, hresolved, hne,
        hregistered, hfails⟩⟩⟩⟩

end AuthorityService

end PowerfarmKernel
