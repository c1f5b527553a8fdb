import PowerfarmKernel.Service.Principals

/-!
# Admitting observations

`ObservationService.admit` of `service/observation.py` checks the form of an observation,
the phases of `service/effects.py` among it, and hands the request to the authority
service. What it asks of a payload is the law of the Act type
(`PowerfarmKernel.ObservationLaw`), and the review service asks the law of reviews
(`PowerfarmKernel.ReviewLaw`).
-/

namespace PowerfarmKernel

open Prog LedgerM

/-- `EFFECT_PHASES`. -/
def effectPhases : List String :=
  ["requested", "authorized", "dispatched", "observed", "committed_as_external_fact",
    "dispatch_failed", "retried"]

/-- `validate_effect_phase`. -/
def validateEffectPhase (phase : String) : Except Raised Unit :=
  if phase ∉ effectPhases then
    .error (validationError ("effect phase must be one of " ++ ", ".intercalate effectPhases))
  else .ok ()

/-! ### The laws of payloads -/

/-- **The law of an observation**: it names the Identity that signs it, rests on evidence,
and says which phase of an effect it is about. -/
structure ObservationLaw (identityHash : Hash) (payload : List (String × CanonValue)) : Prop where
  observer : stringField payload "observer_identity_hash" = some identityHash
  evidence : ∃ hashes, field payload "evidence_hashes" = some (strings hashes) ∧ hashes ≠ [] ∧
    ∀ h ∈ hashes, h.length = 64
  phase : ∃ phase ∈ effectPhases, stringField payload "effect_phase" = some phase

/-- **The law of a review**: it names a Command, and it allows or denies. -/
structure ReviewLaw (payload : List (String × CanonValue)) : Prop where
  target : ∃ target, stringField payload "reviewed_command_hash" = some target ∧
    target.length = 64
  outcome : ∃ outcome ∈ ["allow", "deny"], stringField payload "outcome" = some outcome

/-- **The law of the payload of an Act type.** -/
def PayloadLaw (actType : String) (identityHash : Hash) (payload : List (String × CanonValue)) :
    Prop :=
  (actType = "ObservationAdmitted" → ObservationLaw identityHash payload) ∧
    (actType = "AuthorizationReviewed" → ReviewLaw payload)

/-- A value the laws ask for: a string, or a list of strings. -/
def Textual (v : CanonValue) : Prop := (∃ s, v = .str s) ∨ ∃ l, v = strings l

theorem stringField_eq_some_iff {items : List (String × CanonValue)} {key s : String} :
    stringField items key = some s ↔ field items key = some (.str s) := by
  rw [stringField]
  constructor
  · intro h
    split at h
    · rename_i s' hfield
      rw [hfield, Option.some_inj.mp h]
    · cases h
  · intro h
    rw [h]

/-- **The laws only look at texts**: two payloads with the same texts obey the same laws. -/
theorem payloadLaw_congr {items payload : List (String × CanonValue)} {actType : String}
    {identityHash : Hash}
    (h : ∀ key v, Textual v → (field items key = some v ↔ field payload key = some v)) :
    PayloadLaw actType identityHash items ↔ PayloadLaw actType identityHash payload := by
  have hstring : ∀ key s, stringField items key = some s ↔ stringField payload key = some s := by
    intro key s
    rw [stringField_eq_some_iff, stringField_eq_some_iff]
    exact h key _ (Or.inl ⟨s, rfl⟩)
  have hstrings : ∀ key l, field items key = some (strings l) ↔
      field payload key = some (strings l) := fun key l => h key _ (Or.inr ⟨l, rfl⟩)
  refine and_congr (imp_congr_right fun _ => ?_) (imp_congr_right fun _ => ?_)
  · constructor
    · rintro ⟨hobserver, ⟨hashes, hhashes, hrest⟩, phase, hphase, hfield⟩
      exact ⟨(hstring _ _).mp hobserver, ⟨hashes, (hstrings _ _).mp hhashes, hrest⟩, phase, hphase,
        (hstring _ _).mp hfield⟩
    · rintro ⟨hobserver, ⟨hashes, hhashes, hrest⟩, phase, hphase, hfield⟩
      exact ⟨(hstring _ _).mpr hobserver, ⟨hashes, (hstrings _ _).mpr hhashes, hrest⟩, phase,
        hphase, (hstring _ _).mpr hfield⟩
  · constructor
    · rintro ⟨⟨target, htarget, hlength⟩, outcome, houtcome, hfield⟩
      exact ⟨⟨target, (hstring _ _).mp htarget, hlength⟩, outcome, houtcome,
        (hstring _ _).mp hfield⟩
    · rintro ⟨⟨target, htarget, hlength⟩, outcome, houtcome, hfield⟩
      exact ⟨⟨target, (hstring _ _).mpr htarget, hlength⟩, outcome, houtcome,
        (hstring _ _).mpr hfield⟩

/-! ### The service -/

namespace ObservationService

/-- An item of the evidence is a string of 64 characters. -/
def isEvidence : CanonValue → Bool
  | .str s => s.length = 64
  | _ => false

/-- `ObservationService._validate_payload`. -/
def validatePayload (payload : List (String × CanonValue)) (identityHash : Hash) :
    Except Raised Unit :=
  if stringField payload "observer_identity_hash" ≠ some identityHash then
    .error (validationError "observer_identity_hash must match the signing Identity")
  else match field payload "evidence_hashes" with
    | some (.list evidence) =>
        if evidence.isEmpty ∨ evidence.any fun item => !isEvidence item then
          .error (validationError "observation requires one or more evidence_hashes")
        else match stringField payload "effect_phase" with
          | none => .error (validationError "observation requires effect_phase")
          | some phase => validateEffectPhase phase
    | _ => .error (validationError "observation requires one or more evidence_hashes")

/-- What `ObservationService.admit` asks of a request before it hands it on. -/
def validate (request : ActionRequest) : Except Raised Unit :=
  if request.commandType ≠ "AdmitObservation" then
    .error (validationError "observation admission requires AdmitObservation command type")
  else if request.actType ≠ "ObservationAdmitted" then
    .error (validationError "observation admission must produce ObservationAdmitted")
  else match request.payload with
    | some (.dict payload) => validatePayload payload request.identityHash
    | _ => .error (validationError "observation payload must be an object")

/-- **`ObservationService.admit`.** -/
def admitObservation (P : Primitives) (service : AuthorityService) (request : ActionRequest)
    (principal : Option RequestPrincipal) : LedgerM (EvaluatedAction × Act) := do
  ofExcept (validate request)
  AuthorityService.commit P service request principal

variable {payload : List (String × CanonValue)} {identityHash : Hash} {request : ActionRequest}

/-- Evidence is a list of strings of 64 characters. -/
theorem forall_isEvidence {evidence : List CanonValue} (h : ∀ item ∈ evidence, isEvidence item) :
    ∃ hashes, evidence = List.map CanonValue.str hashes ∧ ∀ h ∈ hashes, h.length = 64 := by
  induction evidence with
  | nil => exact ⟨[], rfl, fun _ hh => absurd hh List.not_mem_nil⟩
  | cons item evidence ih =>
    obtain ⟨hitem, hrest⟩ := List.forall_mem_cons.mp h
    obtain ⟨hashes, rfl, hlength⟩ := ih hrest
    cases item with
    | str s =>
      exact ⟨s :: hashes, rfl, List.forall_mem_cons.mpr ⟨of_decide_eq_true hitem, hlength⟩⟩
    | _ => cases hitem

/-- **What the service accepts obeys the law.** -/
theorem validatePayload_ok {x : Unit} (h : validatePayload payload identityHash = .ok x) :
    ObservationLaw identityHash payload := by
  rw [validatePayload] at h
  split at h
  · cases h
  rename_i hobserver
  split at h
  · rename_i evidence hevidence
    split at h
    · cases h
    rename_i hgood
    split at h
    · cases h
    rename_i phase hphase
    rw [validateEffectPhase] at h
    split at h
    · cases h
    rename_i hknown
    rw [not_or, Bool.not_eq_true, Bool.not_eq_true, List.isEmpty_eq_false_iff] at hgood
    -- `any` over the evidence found nothing wrong.
    have hitems : ∀ item ∈ evidence, isEvidence item := by
      intro item hitem
      simpa using List.any_eq_false.mp hgood.2 item hitem
    obtain ⟨hashes, rfl, hlength⟩ := forall_isEvidence hitems
    refine ⟨not_not.mp hobserver, ⟨hashes, hevidence, ?_, hlength⟩, phase, not_not.mp hknown,
      hphase⟩
    rintro rfl
    exact hgood.1 rfl
  · cases h

theorem validate_ok {x : Unit} (h : validate request = .ok x) :
    request.actType = "ObservationAdmitted" ∧ ∃ payload, request.payload = some (.dict payload) ∧
      ObservationLaw request.identityHash payload := by
  rw [validate] at h
  split at h
  · cases h
  split at h
  · cases h
  rename_i hactType
  split at h
  · rename_i payload hpayload
    exact ⟨not_not.mp hactType, payload, hpayload, validatePayload_ok h⟩
  · cases h

end ObservationService

namespace ReviewService

variable {payload : List (String × CanonValue)} {request : ActionRequest}

/-- **What the review service accepts obeys the law.** -/
theorem validatePayload_ok {x : Unit} (h : validatePayload payload = .ok x) :
    ReviewLaw payload := by
  rw [validatePayload] at h
  split at h
  · cases h
  rename_i target htarget
  split at h
  · cases h
  rename_i hlength
  refine ⟨⟨target, htarget, not_not.mp hlength⟩, ?_⟩
  split at h
  · rename_i houtcome
    exact ⟨"allow", by simp, houtcome⟩
  · rename_i houtcome
    exact ⟨"deny", by simp, houtcome⟩
  · cases h

theorem validate_ok {x : Unit} (h : validate request = .ok x) :
    request.actType = "AuthorizationReviewed" ∧ ∃ payload,
      request.payload = some (.dict payload) ∧ ReviewLaw payload := by
  rw [validate] at h
  split at h
  · cases h
  split at h
  · cases h
  rename_i hactType
  split at h
  · rename_i payload hpayload
    exact ⟨not_not.mp hactType, payload, hpayload, validatePayload_ok h⟩
  · cases h

end ReviewService

end PowerfarmKernel
