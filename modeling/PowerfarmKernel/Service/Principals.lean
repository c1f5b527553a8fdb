import PowerfarmKernel.Service.Review

/-!
# Principal bindings

`PrincipalService` of `service/principals.py` links an external principal to an Identity
and revokes such a link, as governed changes: the Act is committed, and then the binding
it stands for is written to a projection. Linking and revoking differ in the types of
their Command and Act, in the fields their payload must have, and in what they write;
`PowerfarmKernel.PrincipalService.submit` is the rest.

The projection is meant to be what history says
(`PowerfarmKernel.PrincipalService.InStep`): the fold of the Acts that link and revoke,
in commit order. A commit that was answered with an Act from history writes the binding
again all the same, so a request submitted again brings an overtaken binding back
(`PowerfarmKernel.PrincipalService.not_inStep`). Runs without such a request stay in
step: `PowerfarmKernel.PrincipalService.bindings_in_step`.
-/

namespace PowerfarmKernel

open Prog LedgerM

namespace PrincipalService

/-! ### Linking and revoking -/

/-- `LINK`: the Command type and the Act type of a link. -/
def linkKinds : String × String := ("LinkPrincipal", "PrincipalLinked")

/-- `REVOKE`. -/
def revokeKinds : String × String := ("RevokePrincipal", "PrincipalRevoked")

/-- Every field is there, is a string, and is not empty. -/
def requireFields (payload : List (String × CanonValue)) : List String → Except Raised Unit
  | [] => .ok ()
  | field :: fields =>
      match stringField payload field with
      | none => .error (validationError (field ++ " is required"))
      | some value =>
          if value = "" then .error (validationError (field ++ " is required"))
          else requireFields payload fields

/-- The fields an Act of a type needs in its payload. -/
def requiredFields (actType : String) : List String :=
  if actType = revokeKinds.2 then ["issuer", "subject"]
  else ["issuer", "subject", "identity_hash"]

/-- `PrincipalService._require_payload`. -/
def requirePayload (request : ActionRequest) (kinds : String × String) :
    Except Raised (List (String × CanonValue)) :=
  if request.commandType ≠ kinds.1 then
    .error (validationError ("this operation requires the " ++ kinds.1 ++ " command type"))
  else if request.actType ≠ kinds.2 then
    .error (validationError ("this operation must produce " ++ kinds.2))
  else match request.payload with
    | some (.dict payload) =>
        match requireFields payload (requiredFields kinds.2) with
        | .ok _ => .ok payload
        | .error e => .error e
    | _ => .error (validationError "payload must be an object")

/-- `str(payload[field])`, for a field that was found to be a string. -/
def text (payload : List (String × CanonValue)) (field : String) : String :=
  (stringField payload field).getD ""

/-- The two operations of the service. -/
inductive Operation where
  | link
  | revoke
deriving DecidableEq

namespace Operation

/-- The types an operation is about. -/
def kinds : Operation → String × String
  | link => linkKinds
  | revoke => revokeKinds

/-- What an operation writes to the projection, after its Act. -/
def project (payload : List (String × CanonValue)) (act : Act) : Operation → LedgerM Unit
  | link =>
      linkPrincipal (text payload "issuer") (text payload "subject") (text payload "identity_hash")
        act.hash
  | revoke => revokePrincipal (text payload "issuer") (text payload "subject") act.hash

/-- The binding an operation asks for. -/
def asked (payload : List (String × CanonValue)) : Operation → Option Hash
  | link => some (text payload "identity_hash")
  | revoke => none

end Operation

variable (P : Primitives) (service : AuthorityService)

/-- What the two operations have in common. -/
def submit (op : Operation) (request : ActionRequest) (principal : Option RequestPrincipal) :
    LedgerM (EvaluatedAction × Act) := do
  let payload ← ofExcept (requirePayload request op.kinds)
  let result ← AuthorityService.commit P service request principal
  op.project payload result.2
  return result

/-- **`PrincipalService.link`.** -/
def link (request : ActionRequest) (principal : Option RequestPrincipal) :
    LedgerM (EvaluatedAction × Act) :=
  submit P service .link request principal

/-- **`PrincipalService.revoke`.** -/
def revoke (request : ActionRequest) (principal : Option RequestPrincipal) :
    LedgerM (EvaluatedAction × Act) :=
  submit P service .revoke request principal

/-! ### What history says -/

/-- The fields of the payload an Act cites, as they are stored. -/
def storedPayload (objects : Dict Hash (Bytes × String)) (act : Act) :
    List (String × CanonValue) :=
  match (objects.get? act.payloadHash).bind fun found => P.loads found.1 with
  | some (.dict payload) => payload
  | _ => []

/-- What one Act does to the bindings: a link sets one, a revocation clears it, and any
other Act leaves them alone. -/
def applyAct (objects : Dict Hash (Bytes × String)) (bindings : Dict (String × String) Hash)
    (act : Act) : Dict (String × String) Hash :=
  let payload := storedPayload P objects act
  if act.actType = linkKinds.2 then
    bindings.set (text payload "issuer", text payload "subject") (text payload "identity_hash")
  else if act.actType = revokeKinds.2 then
    bindings.pop (text payload "issuer", text payload "subject")
  else bindings

/-- **The bindings history gives**: its Acts, folded in commit order. -/
def projected (s : MemoryLedger) : Dict (String × String) Hash :=
  s.acts.values.foldl (applyAct P s.objects) Dict.empty

/-- **The projection equals the history it projects.** -/
def InStep (s : MemoryLedger) : Prop :=
  ∀ issuer subject, s.resolvePrincipal issuer subject = (projected P s).get? (issuer, subject)

variable {P service} {known : MemoryLedger → String → String → Cut → Bool} {s t : MemoryLedger}
  {op : Operation} {request : ActionRequest} {principal : Option RequestPrincipal}
  {payload : List (String × CanonValue)} {a : Act}

/-! ### What an operation asks of its payload -/

theorem requireFields_ok {fields : List String} {x : Unit}
    (h : requireFields payload fields = .ok x) :
    ∀ field ∈ fields, stringField payload field = some (text payload field) ∧
      text payload field ≠ "" := by
  induction fields with
  | nil => exact fun _ hf => absurd hf List.not_mem_nil
  | cons field fields ih =>
    rw [requireFields] at h
    rcases hv : stringField payload field with _ | value
    · rw [hv] at h
      cases h
    · rw [hv] at h
      dsimp only at h
      split at h
      · cases h
      · rename_i hne
        have htext : text payload field = value := by rw [text, hv, Option.getD_some]
        refine List.forall_mem_cons.mpr ⟨⟨?_, ?_⟩, ih h⟩
        · rw [hv, htext]
        · rwa [htext]

theorem requirePayload_ok {kinds : String × String}
    (h : requirePayload request kinds = .ok payload) :
    request.commandType = kinds.1 ∧ request.actType = kinds.2 ∧
      request.payload = some (.dict payload) ∧
      ∀ field ∈ requiredFields kinds.2, stringField payload field = some (text payload field) ∧
        text payload field ≠ "" := by
  rw [requirePayload] at h
  split at h
  · cases h
  · rename_i hcommand
    split at h
    · cases h
    · rename_i hact
      rcases hpayload : request.payload with _ | payload'
      · rw [hpayload] at h
        cases h
      · rw [hpayload] at h
        rcases payload' with _ | _ | _ | _ | _ | _ | items <;> try cases h
        dsimp only at h
        rcases hfields : requireFields items (requiredFields kinds.2) with e | x
        · rw [hfields] at h
          cases h
        · rw [hfields] at h
          cases h
          exact ⟨not_not.mp hcommand, not_not.mp hact, rfl, requireFields_ok hfields⟩

theorem required_subject (op : Operation) :
    "issuer" ∈ requiredFields op.kinds.2 ∧ "subject" ∈ requiredFields op.kinds.2 := by
  cases op <;> decide

/-- Neither operation asks for a stage. -/
theorem kinds_notMem (op : Operation) : op.kinds.2 ∉ lifecycleActTypes := by
  cases op <;> decide

/-! ### What an operation writes -/

/-- The principal a payload is about. -/
def subjectOf (payload : List (String × CanonValue)) : String × String :=
  (text payload "issuer", text payload "subject")

/-- The ledger after an operation has written its binding. -/
def write (s : MemoryLedger) (op : Operation) (payload : List (String × CanonValue)) :
    MemoryLedger :=
  match op with
  | .link =>
      s.linkPrincipal (text payload "issuer") (text payload "subject")
        (text payload "identity_hash")
  | .revoke => s.revokePrincipal (text payload "issuer") (text payload "subject")

theorem run_project : (op.project payload a).run (MemoryLedger.handle known) s
    = (.ok (), write s op payload) := by
  cases op with
  | link => exact MemoryLedger.run_linkPrincipal
  | revoke => exact MemoryLedger.run_revokePrincipal

theorem write_acts : (write s op payload).acts = s.acts := by cases op <;> rfl

theorem write_objects : (write s op payload).objects = s.objects := by cases op <;> rfl

theorem write_projected : projected P (write s op payload) = projected P s := by
  rw [projected, write_acts, write_objects]
  rfl

/-- **A written binding resolves to what was asked**, and no other binding changes. -/
theorem resolvePrincipal_write (hissuer : text payload "issuer" ≠ "")
    (hsubject : text payload "subject" ≠ "") (issuer subject : String) :
    (write s op payload).resolvePrincipal issuer subject
      = if (issuer, subject) = subjectOf payload then op.asked payload
        else s.resolvePrincipal issuer subject := by
  by_cases hself : (issuer, subject) = subjectOf payload
  · rw [if_pos hself]
    obtain ⟨rfl, rfl⟩ := Prod.mk.inj hself
    rw [MemoryLedger.resolvePrincipal, if_neg (not_or.mpr ⟨hissuer, hsubject⟩)]
    cases op with
    | link => exact Dict.get?_set_self
    | revoke =>
      rw [write, MemoryLedger.revokePrincipal, Dict.get?_pop, if_pos rfl]
      rfl
  · rw [if_neg hself, MemoryLedger.resolvePrincipal, MemoryLedger.resolvePrincipal]
    split
    · rfl
    · cases op with
      | link => exact Dict.get?_set_of_ne hself
      | revoke =>
        rw [write, MemoryLedger.revokePrincipal, Dict.get?_pop]
        exact if_neg hself

/-- **One operation**: it raises, with objects added at most; or its commit is answered
with an Act, and then the binding is written. -/
theorem submit_cases {r : Except Raised (EvaluatedAction × Act)}
    (hrun : (submit P service op request principal).run (MemoryLedger.handle known) s = (r, t)) :
    ((∃ e, r = .error e) ∧ MemoryLedger.SameHistory s t) ∨
      ∃ payload x u, requirePayload request op.kinds = .ok payload ∧
        (AuthorityService.commit P service request principal).run (MemoryLedger.handle known) s
          = (.ok x, u) ∧ r = .ok x ∧ t = write u op payload := by
  rw [submit, run_bind, run_ofExcept] at hrun
  rcases hpayload : requirePayload request op.kinds with e | payload
  · rw [hpayload] at hrun
    cases hrun
    exact Or.inl ⟨⟨e, rfl⟩, MemoryLedger.SameHistory.refl s⟩
  rw [hpayload] at hrun
  dsimp only at hrun
  rcases hcommit : (AuthorityService.commit P service request principal).run
    (MemoryLedger.handle known) s with ⟨e | x, u⟩
  · rw [run_bind, hcommit] at hrun
    cases hrun
    rcases AuthorityService.commit_cases hcommit with ⟨e', -, hsame⟩ | ⟨E, -, hanswer⟩
    · exact Or.inl ⟨⟨e, rfl⟩, hsame⟩
    · rcases hanswer with ⟨a, h, -⟩ | ⟨E', a, k, h, -⟩ | ⟨a, h, -⟩ <;> cases h
  · rw [run_bind_of_eq hcommit, run_bind_of_eq run_project] at hrun
    cases hrun
    exact Or.inr ⟨payload, x, u, rfl, rfl, rfl, rfl⟩

/-! ### The fold over a growing history -/

/-- An Act the bindings are folded from. -/
def Binds (a : Act) : Prop := a.actType = linkKinds.2 ∨ a.actType = revokeKinds.2

theorem applyAct_of_not_binds {objects : Dict Hash (Bytes × String)}
    {bindings : Dict (String × String) Hash} (h : ¬Binds a) :
    applyAct P objects bindings a = bindings := by
  obtain ⟨hlink, hrevoke⟩ := not_or.mp h
  rw [applyAct, if_neg hlink, if_neg hrevoke]

/-- **What an Act does to one binding.** -/
theorem get?_applyAct {objects : Dict Hash (Bytes × String)}
    {bindings : Dict (String × String) Hash} (h : a.actType = op.kinds.2) (p : String × String) :
    (applyAct P objects bindings a).get? p
      = if p = subjectOf (storedPayload P objects a) then op.asked (storedPayload P objects a)
        else bindings.get? p := by
  cases op with
  | link =>
    have htype : a.actType = linkKinds.2 := h
    rw [applyAct, if_pos htype]
    exact Dict.get?_set
  | revoke =>
    have htype : a.actType = revokeKinds.2 := h
    have hne : a.actType ≠ linkKinds.2 := by
      rw [htype]
      decide
    rw [applyAct, if_neg hne, if_pos htype]
    exact Dict.get?_pop

/-- The payload of every Act that binds is stored. -/
def PayloadsStored (s : MemoryLedger) : Prop :=
  ∀ k a, s.acts.get? k = some a → Binds a → ∃ found, s.objects.get? a.payloadHash = some found

theorem foldl_applyAct_of_le (h : PayloadsStored s) {objects : Dict Hash (Bytes × String)}
    (hle : s.objects ≤ objects) :
    s.acts.values.foldl (applyAct P objects) Dict.empty = projected P s := by
  refine List.foldl_ext _ _ _ fun bindings a ha => ?_
  obtain ⟨k, hk⟩ := Dict.mem_values_iff.mp ha
  by_cases hbinds : Binds a
  · obtain ⟨found, hfound⟩ := h k a hk hbinds
    have hpayload : storedPayload P objects a = storedPayload P s.objects a := by
      rw [storedPayload, storedPayload, hfound, Dict.get?_of_le hle hfound]
    rw [applyAct, applyAct, hpayload]
  · rw [applyAct_of_not_binds hbinds, applyAct_of_not_binds hbinds]

theorem payloadsStored_of_sameHistory (hstored : PayloadsStored s)
    (hsame : MemoryLedger.SameHistory s t) : PayloadsStored t := by
  intro k b hb hbinds
  rw [hsame.acts] at hb
  obtain ⟨found, hfound⟩ := hstored k b hb hbinds
  exact ⟨found, Dict.get?_of_le hsame.objects hfound⟩

theorem payloadsStored_write (hstored : PayloadsStored s) :
    PayloadsStored (write s op payload) := by
  intro k b hb hbinds
  rw [write_acts] at hb
  rw [write_objects]
  exact hstored k b hb hbinds

/-- The gate admits no Act whose payload is not stored. -/
theorem payloadsStored_of_committed (hstored : PayloadsStored s) {E : EvaluatedAction}
    (hcommitted : AuthorityService.Committed P service known s t request principal E a) :
    PayloadsStored t := by
  obtain ⟨u, hsame, hadm, hplaced, -⟩ := hcommitted.admitted
  intro k b hb hbinds
  rcases (hplaced.get?_iff hadm.fresh).mp hb with ⟨rfl, rfl⟩ | hb
  · obtain ⟨found, hfound⟩ := Option.isSome_iff_exists.mp hadm.payload
    rw [hadm.payloadHash]
    exact ⟨found, Dict.get?_of_le hplaced.objects hfound⟩
  · rw [hsame.acts] at hb
    obtain ⟨found, hfound⟩ := hstored k b hb hbinds
    exact ⟨found, Dict.get?_of_le (le_trans hsame.objects hplaced.objects) hfound⟩

/-- Objects that are added change no binding of history. -/
theorem projected_of_sameHistory (h : PayloadsStored s) (hsame : MemoryLedger.SameHistory s t) :
    projected P t = projected P s := by
  rw [projected, hsame.acts]
  exact foldl_applyAct_of_le h hsame.objects

/-- **An Act admitted last is folded last.** -/
theorem projected_of_admitted (h : PayloadsStored s) (hfresh : s.acts.get? a.hash = none)
    (hacts : t.acts = s.acts.set a.hash a) (hle : s.objects ≤ t.objects) :
    projected P t = applyAct P t.objects (projected P s) a := by
  rw [projected, hacts, Dict.values_set_of_notMem (Dict.get?_eq_none_iff.mp hfresh),
    List.foldl_append, foldl_applyAct_of_le h hle]
  rfl

/-! ### Requests submitted again -/

/-- A payload reads back from its canonical form with the strings it was written with. -/
def ReadsBack (P : Primitives) (payload : List (String × CanonValue)) : Prop :=
  ∀ canon, canonicalize P (.dict payload) = .ok canon →
    ∃ items, P.loads canon = some (.dict items) ∧
    ∀ field, stringField items field = stringField payload field

/-- **History answers a request**: evaluated in this ledger it is permitted, and its
Command has the consequence it asks for, or the very Act it asks for has a place. -/
def Answered (P : Primitives) (service : AuthorityService)
    (known : MemoryLedger → String → String → Cut → Bool) (s : MemoryLedger) (call : Call) : Prop :=
  ∃ E, (AuthorityService.evaluate P service call.request call.principal).run
      (MemoryLedger.handle known) s = (.ok E, s) ∧
    E.decision.outcome ∈ permittedOutcomes E.actType ∧
    ((∃ a, AuthorityService.Settled P s E a) ∨
      ∃ k a, (AuthorityService.submission call.request E).occurrence P = .ok k ∧
        s.acts.get? k = some a)

/-- One call of the service. -/
structure Change where
  op : Operation
  call : Call

/-- **A call that brings an overtaken binding back**: history answers its request, and
the binding it asks for is not the one history gives. -/
def Overtaken (P : Primitives) (service : AuthorityService)
    (known : MemoryLedger → String → String → Cut → Bool) (s : MemoryLedger) (c : Change) : Prop :=
  Answered P service known s c.call ∧
    ∃ payload, requirePayload c.call.request c.op.kinds = .ok payload ∧
      (projected P s).get? (subjectOf payload) ≠ c.op.asked payload

/-! ### Runs -/

variable (P service known) in
/-- What a call answers, and the ledger after it. -/
def answer (s : MemoryLedger) (c : Change) : Except Raised (EvaluatedAction × Act) × MemoryLedger :=
  (submit P service c.op c.call.request c.call.principal).run (MemoryLedger.handle known) s

variable (P service known) in
/-- The ledger after one call. -/
def step (s : MemoryLedger) (c : Change) : MemoryLedger := (answer P service known s c).2

variable (P service known) in
/-- The ledger after a sequence of calls, whether they succeed or fail. -/
abbrev exec (s : MemoryLedger) (changes : List Change) : MemoryLedger :=
  Runs.exec (step P service known) s changes

theorem inStep_of_sameHistory (hstored : PayloadsStored s) (hin : InStep P s)
    (hsame : MemoryLedger.SameHistory s t) : InStep P t := by
  intro issuer subject
  rw [projected_of_sameHistory hstored hsame, ← hin issuer subject]
  simp only [MemoryLedger.resolvePrincipal, hsame.principalBindings]

/-- Writing the binding of an Act from history keeps the projection in step when it is
the binding history gives, and only then. -/
theorem inStep_write_iff (hin : InStep P s) (hissuer : text payload "issuer" ≠ "")
    (hsubject : text payload "subject" ≠ "") :
    InStep P (write s op payload) ↔
      (projected P s).get? (subjectOf payload) = op.asked payload := by
  constructor
  · intro h
    have hself := h (text payload "issuer") (text payload "subject")
    rw [resolvePrincipal_write hissuer hsubject, write_projected] at hself
    rw [subjectOf, ← hself]
    exact if_pos rfl
  · intro h issuer subject
    rw [resolvePrincipal_write hissuer hsubject, write_projected]
    split
    · rename_i hself
      rw [hself, h]
    · exact hin issuer subject

/-- **An Act that is admitted and then written** keeps the projection in step: the
binding is read back from the payload the Act cites. -/
theorem inStep_of_committed (hstored : PayloadsStored s) (hin : InStep P s)
    (hread : ReadsBack P payload) (hreq : requirePayload request op.kinds = .ok payload)
    {E : EvaluatedAction} {u : MemoryLedger}
    (hcommitted : AuthorityService.Committed P service known s u request principal E a) :
    InStep P (write u op payload) := by
  obtain ⟨-, hactType, hpayload, hfields⟩ := requirePayload_ok hreq
  obtain ⟨v, hsame, hadm, hplaced, hstore⟩ := hcommitted.admitted
  obtain ⟨canon, hcanon, hobject⟩ := hstore _ hpayload
  obtain ⟨items, hitems, hstrings⟩ := hread canon hcanon
  have hle : s.objects ≤ u.objects := le_trans hsame.objects hplaced.objects
  have hcites : a.payloadHash = request.payloadHash := by
    rw [hadm.payloadHash]
    exact (ActionRequest.command_ok hcommitted.evaluation.command).2.2.1
  have hfound : u.objects.get? a.payloadHash = some (canon, "payload") := by
    rw [hcites]
    exact Dict.get?_of_le hplaced.objects hobject
  have hacts : u.acts = s.acts.set a.hash a := by rw [hplaced.acts, hsame.acts]
  have hfresh : s.acts.get? a.hash = none := by
    rw [← hsame.acts]
    exact hadm.fresh
  -- The Act cites the payload of the request, and it reads back as it was.
  have hitself : storedPayload P u.objects a = items := by
    rw [storedPayload, hfound, Option.bind_some, hitems]
  have htext : ∀ field, text items field = text payload field := by
    intro field
    rw [text, text, hstrings]
  have hsubjectOf : subjectOf items = subjectOf payload := by
    rw [subjectOf, subjectOf, htext, htext]
  have hasked : op.asked items = op.asked payload := by
    cases op with
    | link => rw [Operation.asked, Operation.asked, htext]
    | revoke => rfl
  have hkind : a.actType = op.kinds.2 := by
    rw [hadm.actType]
    exact hcommitted.evaluation.actType.trans hactType
  intro issuer subject
  rw [resolvePrincipal_write (hfields _ (required_subject op).1).2
    (hfields _ (required_subject op).2).2, write_projected,
    projected_of_admitted hstored hfresh hacts hle, get?_applyAct hkind, hitself, hsubjectOf,
    hasked, ← hin issuer subject]
  simp only [MemoryLedger.resolvePrincipal, hplaced.principalBindings, hsame.principalBindings]

/-- **A new Act answers no request that history answers.** -/
theorem not_answered_of_committed {call : Call} {E : EvaluatedAction}
    (hcons : call.request.actType ∉ lifecycleActTypes)
    (heval : (AuthorityService.evaluate P service call.request call.principal).run
      (MemoryLedger.handle known) s = (.ok E, s))
    (hcommitted : AuthorityService.Committed P service known s t call.request call.principal E a) :
    ¬Answered P service known s call := by
  rintro ⟨E', heval', -, hanswered⟩
  rw [heval] at heval'
  cases heval'
  rcases hanswered with ⟨b, hsettled⟩ | ⟨k, b, hocc, hget⟩
  · obtain ⟨commandHash, acts, hhash, hacts, hfind⟩ := hsettled.owned
    obtain ⟨commandHash', acts', hhash', hacts', hstages⟩ := hcommitted.unsettled hcons
    rw [hhash] at hhash'
    cases hhash'
    rw [hacts] at hacts'
    cases hacts'
    have hstage := hstages b (List.mem_of_find?_eq_some hfind)
    have hnot : b.actType ∉ lifecycleActTypes := by simpa using List.find?_some hfind
    exact hnot hstage
  · obtain ⟨v, hsame, hadm, -⟩ := hcommitted.admitted
    have hown : (AuthorityService.submission call.request E).occurrence P = .ok a.hash := by
      rw [Submission.occurrence, CommitGate.canonicalValue, hadm.commandHash, hadm.contextHash]
      exact hadm.hash
    rw [hown] at hocc
    cases hocc
    have hfresh := hadm.fresh
    rw [hsame.acts, hget] at hfresh
    cases hfresh

/-- The payloads stay stored, whatever is called. -/
theorem payloadsStored_step {c : Change} (hstored : PayloadsStored s) :
    PayloadsStored (step P service known s c) := by
  rw [step]
  rcases hrun : answer P service known s c with ⟨r, t⟩
  dsimp only
  rcases submit_cases hrun with ⟨-, hsame⟩ | ⟨payload, x, u, -, hcommit, -, rfl⟩
  · exact payloadsStored_of_sameHistory hstored hsame
  · obtain ⟨E, -, -, hanswer⟩ := AuthorityService.commit_ok hcommit
    rcases hanswer with ⟨-, -, rfl⟩ | ⟨k, -, -, -, hsame⟩ | ⟨-, hcommitted⟩
    · exact payloadsStored_write hstored
    · exact payloadsStored_write (payloadsStored_of_sameHistory hstored hsame)
    · exact payloadsStored_write (payloadsStored_of_committed hstored hcommitted)

/-- **One call**, from a ledger in step: a call that raises leaves the projection in
step, and a call that returns does unless it brings an overtaken binding back. -/
theorem inStep_step {c : Change} (hstored : PayloadsStored s) (hin : InStep P s)
    (hread : ∀ payload, c.call.request.payload = some (.dict payload) → ReadsBack P payload) :
    ((∃ e, (answer P service known s c).1 = .error e) → InStep P (step P service known s c)) ∧
      ((∃ x, (answer P service known s c).1 = .ok x) →
        (InStep P (step P service known s c) ↔ ¬Overtaken P service known s c)) := by
  rw [step]
  rcases hrun : answer P service known s c with ⟨r, t⟩
  dsimp only
  rcases submit_cases hrun with ⟨⟨e, rfl⟩, hsame⟩ | ⟨payload, x, u, hreq, hcommit, rfl, rfl⟩
  · refine ⟨fun _ => inStep_of_sameHistory hstored hin hsame, ?_⟩
    rintro ⟨x, hx⟩
    cases hx
  refine ⟨?_, fun _ => ?_⟩
  · rintro ⟨e, he⟩
    cases he
  obtain ⟨-, htype, hpayload, hfields⟩ := requirePayload_ok hreq
  obtain ⟨E, heval, hpermitted, hanswer⟩ := AuthorityService.commit_ok hcommit
  -- An Act from history: the binding is written once more.
  have hagain : (∃ b, AuthorityService.Settled P s E b) ∨ (∃ k b,
      (AuthorityService.submission c.call.request E).occurrence P = .ok k ∧
        s.acts.get? k = some b) →
      MemoryLedger.SameHistory s u →
      (InStep P (write u c.op payload) ↔ ¬Overtaken P service known s c) := by
    intro hwhy hsame
    rw [inStep_write_iff (inStep_of_sameHistory hstored hin hsame)
      (hfields _ (required_subject c.op).1).2 (hfields _ (required_subject c.op).2).2,
      projected_of_sameHistory hstored hsame]
    constructor
    · rintro hget ⟨-, payload', hreq', hne⟩
      rw [hreq] at hreq'
      cases hreq'
      exact hne hget
    · intro hnot
      by_contra hne
      exact hnot ⟨⟨E, heval, hpermitted, hwhy⟩, payload, hreq, hne⟩
  rcases hanswer with ⟨-, hsettled, rfl⟩ | ⟨k, -, hocc, hget, hsame⟩ | ⟨-, hcommitted⟩
  · exact hagain (Or.inl ⟨_, hsettled⟩) (MemoryLedger.SameHistory.refl _)
  · exact hagain (Or.inr ⟨k, _, hocc, hget⟩) hsame
  · have hcons : c.call.request.actType ∉ lifecycleActTypes := by
      rw [htype]
      exact kinds_notMem c.op
    exact iff_of_true (inStep_of_committed hstored hin (hread _ hpayload) hreq hcommitted)
      fun h => not_answered_of_committed hcons heval hcommitted h.1

/-- Before anything is linked, there is nothing to project. -/
theorem inStep_of_empty (hstart : ∀ k a, s.acts.get? k = some a → ¬Binds a)
    (hempty : s.principalBindings = Dict.empty) : InStep P s := by
  have hnothing : projected P s = Dict.empty := by
    refine (List.foldl_ext _ (fun bindings _ => bindings) _ fun bindings a ha => ?_).trans
      (List.foldl_fixed _)
    obtain ⟨k, hk⟩ := Dict.mem_values_iff.mp ha
    exact applyAct_of_not_binds (hstart k a hk)
  intro issuer subject
  rw [hnothing, MemoryLedger.resolvePrincipal, hempty]
  exact ite_self _

open Runs in
/-- **The bindings stay in step with history**, in every run of links and revocations
none of which brings an overtaken binding back: after every call, a principal resolves
to what the Acts that link and revoke it give. And that condition is exact: from a
ledger in step, a call that returns leaves the projection in step if and only if it does
not bring an overtaken binding back; a call that raises always does. -/
theorem bindings_in_step (P : Primitives) (service : AuthorityService)
    (known : MemoryLedger → String → String → Cut → Bool) (s : MemoryLedger)
    (hstart : ∀ k a, s.acts.get? k = some a → ¬Binds a)
    (hempty : s.principalBindings = Dict.empty) (changes : List Change)
    (hread : ∀ c ∈ changes, ∀ payload, c.call.request.payload = some (.dict payload) →
      ReadsBack P payload) :
    ((∀ pre c, Made changes pre c → ¬Overtaken P service known (exec P service known s pre) c) →
        ∀ pre, pre <+: changes → InStep P (exec P service known s pre)) ∧
      ∀ pre c, Made changes pre c → InStep P (exec P service known s pre) →
        ((∃ e, (answer P service known (exec P service known s pre) c).1 = .error e) →
          InStep P (exec P service known s (pre ++ [c]))) ∧
        ((∃ x, (answer P service known (exec P service known s pre) c).1 = .ok x) →
          (InStep P (exec P service known s (pre ++ [c])) ↔
            ¬Overtaken P service known (exec P service known s pre) c)) := by
  have hstored : ∀ pre, PayloadsStored (exec P service known s pre) :=
    exec_inv (fun _ _ h => payloadsStored_step h) fun k a ha hbinds => absurd hbinds (hstart k a ha)
  have hcall : ∀ pre c, Made changes pre c → InStep P (exec P service known s pre) →
        ((∃ e, (answer P service known (exec P service known s pre) c).1 = .error e) →
          InStep P (exec P service known s (pre ++ [c]))) ∧
        ((∃ x, (answer P service known (exec P service known s pre) c).1 = .ok x) →
          (InStep P (exec P service known s (pre ++ [c])) ↔
            ¬Overtaken P service known (exec P service known s pre) c)) := by
    intro pre c hmade hin
    have hconcat : exec P service known s (pre ++ [c])
        = step P service known (exec P service known s pre) c := exec_concat
    rw [hconcat]
    exact inStep_step (hstored pre) hin (hread c hmade.mem)
  refine ⟨fun hnone pre hpre => ?_, hcall⟩
  -- On the calls made so far; every one of them meets a ledger in step.
  induction pre using List.reverseRecOn with
  | nil => exact inStep_of_empty hstart hempty
  | append_singleton pre c ih =>
    have hmade : Made changes pre c := hpre
    obtain ⟨herror, hok⟩ := hcall pre c hmade (ih hmade.earlier)
    rcases hanswer : (answer P service known (exec P service known s pre) c).1 with e | x
    · exact herror ⟨e, hanswer⟩
    · exact (hok ⟨x, hanswer⟩).mpr (hnone pre c hmade)

/-- A principal is linked. -/
def linkCall : Change := ⟨.link, ⟨Sample.linkAlice, none⟩⟩

/-- The link is revoked. -/
def revokeCall : Change := ⟨.revoke, ⟨Sample.revokeAlice, none⟩⟩

/-- **A revoked credential comes back** when the request that linked it is submitted
again: history has revoked it last, and it resolves. -/
theorem not_inStep : ¬InStep Sample.libraries (exec Sample.libraries Sample.authority
    MemoryLedger.registered Sample.office [linkCall, revokeCall, linkCall]) := by
  intro h
  have hboth : (exec Sample.libraries Sample.authority MemoryLedger.registered Sample.office
        [linkCall, revokeCall, linkCall]).resolvePrincipal "https://idp" "alice"
      ≠ (projected Sample.libraries (exec Sample.libraries Sample.authority MemoryLedger.registered
        Sample.office [linkCall, revokeCall, linkCall])).get? ("https://idp", "alice") := by
    decide +kernel
  exact hboth (h _ _)

theorem readsBack_alice : ReadsBack Sample.libraries Sample.alice := by
  intro canon hcanon
  cases hcanon
  exact ⟨Sample.alice, rfl, fun _ => rfl⟩

/-- Nothing answers the first request. -/
theorem not_overtaken_first : ¬Overtaken Sample.libraries Sample.authority MemoryLedger.registered
    Sample.office linkCall := by
  rintro ⟨⟨E, heval, -, hanswered⟩, -⟩
  rcases hanswered with ⟨b, hsettled⟩ | ⟨k, b, hocc, hget⟩
  · obtain ⟨commandHash, acts, -, hacts, hfind⟩ := hsettled.owned
    have hnone : Sample.office.getActsForCommand commandHash = .ok [] := rfl
    rw [hnone] at hacts
    cases hacts
    cases hfind
  · obtain ⟨rfl, -⟩ := Sample.get?_ledger hget
    have hother : ((AuthorityService.evaluate Sample.libraries Sample.authority Sample.linkAlice
        none).run (MemoryLedger.handle MemoryLedger.registered) Sample.office).1.toOption.all
          (fun E => ((AuthorityService.submission Sample.linkAlice E).occurrence
            Sample.libraries).toOption ≠ some (Sample.genesisHash Sample.pad)) = true := by
      decide +kernel
    have heval' : (AuthorityService.evaluate Sample.libraries Sample.authority Sample.linkAlice
        none).run (MemoryLedger.handle MemoryLedger.registered) Sample.office
          = (.ok E, Sample.office) := heval
    have hocc' : (AuthorityService.submission Sample.linkAlice E).occurrence Sample.libraries
        = .ok (Sample.genesisHash Sample.pad) := hocc
    rw [heval'] at hother
    simp [Except.toOption, hocc'] at hother

/-- A request for a link that history does not contradict may be submitted again. -/
theorem bindings_in_step_linked : InStep Sample.libraries (exec Sample.libraries Sample.authority
    MemoryLedger.registered Sample.office [linkCall, linkCall]) := by
  have hpayload : ∀ payload, linkCall.call.request.payload = some (.dict payload) →
      payload = Sample.alice := by
    rintro payload hpayload
    cases hpayload
    rfl
  refine (bindings_in_step Sample.libraries Sample.authority MemoryLedger.registered Sample.office
    ?_ rfl [linkCall, linkCall] ?_).1 ?_ _ List.prefix_rfl
  · intro k a ha hbinds
    obtain ⟨-, rfl⟩ := Sample.get?_ledger ha
    rcases hbinds with h | h <;> exact absurd h (by decide)
  · intro c hc payload h
    rw [List.mem_pair, or_self] at hc
    subst hc
    rw [hpayload payload h]
    exact readsBack_alice
  · rw [Runs.forall_made_iff]
    intro i hi
    obtain rfl | rfl : i = 0 ∨ i = 1 := by
      simp only [List.length_cons, List.length_nil] at hi
      omega
    · exact not_overtaken_first
    · rintro ⟨-, payload, hreq, hne⟩
      rw [hpayload payload (requirePayload_ok hreq).2.2.1] at hne
      refine hne ?_
      change (projected Sample.libraries (exec Sample.libraries Sample.authority
        MemoryLedger.registered Sample.office [linkCall])).get? (subjectOf Sample.alice)
          = Operation.asked Sample.alice .link
      decide +kernel

end PrincipalService

end PowerfarmKernel
