import PowerfarmKernel.Service.Observation

/-!
# Every door into history

A client reaches history through several doors: the generic `AuthorityService.commit`, and
the services for reviews, observations and principals, which check a request before they
hand it on to the same commit. Two Act types have a law for their payloads
(`PowerfarmKernel.PayloadLaw`), and only the services of these types check it. The generic
door admits an Act of either type with any payload, as long as the gate can read which
Command a review names (`PowerfarmKernel.Doors.not_governed`).

Runs in which nothing passes the generic door against the law stay governed
(`PowerfarmKernel.Doors.payload_laws`).
-/

namespace PowerfarmKernel

open Prog LedgerM

namespace Doors

/-! ### Doors -/

/-- **The doors.** -/
inductive Door where
  /-- `AuthorityService.commit`. -/
  | commit
  /-- `ReviewService.submit`. -/
  | review
  /-- `ObservationService.admit`. -/
  | observation
  /-- `PrincipalService.link` and `PrincipalService.revoke`. -/
  | principal (op : PrincipalService.Operation)
deriving DecidableEq

/-- A call through a door. -/
structure Visit where
  door : Door
  call : Call

section Run

variable (P : Primitives) (service : AuthorityService)
  (known : MemoryLedger → String → String → Cut → Bool)

/-- What a service does with a request. -/
def Door.serve (request : ActionRequest) (principal : Option RequestPrincipal) :
    Door → LedgerM (EvaluatedAction × Act)
  | .commit => AuthorityService.commit P service request principal
  | .review => ReviewService.submit P service request principal
  | .observation => ObservationService.admitObservation P service request principal
  | .principal op => PrincipalService.submit P service op request principal

/-- What a call answers, and the ledger after it. -/
def answer (s : MemoryLedger) (v : Visit) : Except Raised (EvaluatedAction × Act) × MemoryLedger :=
  (v.door.serve P service v.call.request v.call.principal).run (MemoryLedger.handle known) s

/-- The ledger after one call. -/
def step (s : MemoryLedger) (v : Visit) : MemoryLedger := (answer P service known s v).2

/-- The ledger after a sequence of calls, whether they succeed or fail. -/
abbrev exec (s : MemoryLedger) (visits : List Visit) : MemoryLedger :=
  Runs.exec (step P service known) s visits

end Run

/-! ### Payloads under the law -/

/-- The fields of a value that is a mapping. -/
def fields : Option CanonValue → List (String × CanonValue)
  | some (.dict items) => items
  | _ => []

/-- The fields of a payload, as it is stored. -/
def fieldsAt (P : Primitives) (objects : Dict Hash (Bytes × String)) (payloadHash : Hash) :
    List (String × CanonValue) :=
  fields ((objects.get? payloadHash).bind fun found => P.loads found.1)

/-- **Every Act obeys the law of its type**, in the payload it cites. -/
def Governed (P : Primitives) (s : MemoryLedger) : Prop :=
  ∀ k a, s.acts.get? k = some a →
    PayloadLaw a.actType a.identityHash (fieldsAt P s.objects a.payloadHash)

/-- **A request obeys the law of the Act type it asks for**, in the payload it brings, or
else in the one that is stored already. -/
def Obeys (P : Primitives) (s : MemoryLedger) (request : ActionRequest) : Prop :=
  PayloadLaw request.actType request.identityHash <| match request.payload with
    | some payload => fields (some payload)
    | none => fieldsAt P s.objects request.payloadHash

/-- A payload reads back from its canonical form with the texts it was written with, and
no others. -/
def ReadsBack (P : Primitives) (payload : CanonValue) : Prop :=
  ∀ canon, canonicalize P payload = .ok canon → ∀ key v, Textual v →
    (field (fields (P.loads canon)) key = some v ↔ field (fields (some payload)) key = some v)

variable {P : Primitives} {service : AuthorityService}
  {known : MemoryLedger → String → String → Cut → Bool} {s t : MemoryLedger} {v : Visit}
  {request : ActionRequest} {principal : Option RequestPrincipal}

/-- A payload that breaks no law while it is missing has no law to obey. -/
theorem payloadLaw_of_le {objects objects' : Dict Hash (Bytes × String)} {actType : String}
    {identityHash payloadHash : Hash} (hle : objects ≤ objects')
    (h : PayloadLaw actType identityHash (fieldsAt P objects payloadHash)) :
    PayloadLaw actType identityHash (fieldsAt P objects' payloadHash) := by
  rcases hfound : objects.get? payloadHash with _ | found
  · have hnothing : fieldsAt P objects payloadHash = [] := by
      rw [fieldsAt, hfound]
      rfl
    rw [hnothing] at h
    constructor
    · intro htype
      have hobserver := (h.1 htype).observer
      cases hobserver
    · intro htype
      obtain ⟨target, htarget, -⟩ := (h.2 htype).target
      cases htarget
  · rw [fieldsAt, Dict.get?_of_le hle hfound]
    rwa [fieldsAt, hfound] at h

theorem governed_of_grown (h : Governed P s) (hacts : t.acts = s.acts)
    (hobjects : s.objects ≤ t.objects) : Governed P t := by
  intro k a ha
  rw [hacts] at ha
  exact payloadLaw_of_le hobjects (h k a ha)

/-! ### What the services check -/

theorem obeys_of_observation {x : Unit} (h : ObservationService.validate request = .ok x) :
    Obeys P s request := by
  obtain ⟨htype, payload, hpayload, hlaw⟩ := ObservationService.validate_ok h
  rw [Obeys, hpayload]
  refine ⟨fun _ => hlaw, fun hreview => ?_⟩
  rw [htype] at hreview
  exact absurd hreview (by decide)

theorem obeys_of_review {x : Unit} (h : ReviewService.validate request = .ok x) :
    Obeys P s request := by
  obtain ⟨htype, payload, hpayload, hlaw⟩ := ReviewService.validate_ok h
  rw [Obeys, hpayload]
  refine ⟨fun hobservation => ?_, fun _ => hlaw⟩
  rw [htype] at hobservation
  exact absurd hobservation (by decide)

/-- Links and revocations have no law here. -/
theorem obeys_of_principal {op : PrincipalService.Operation}
    (h : request.actType = op.kinds.2) : Obeys P s request := by
  constructor
  · intro htype
    rw [h] at htype
    cases op <;> exact absurd htype (by decide)
  · intro htype
    rw [h] at htype
    cases op <;> exact absurd htype (by decide)

/-- **Behind every door is the same commit**: a call raises, with objects added at most, or
it returns what the commit returns. A request that came through another door than the
generic one obeys the law. -/
theorem answer_cases {r : Except Raised (EvaluatedAction × Act)}
    (hrun : answer P service known s v = (r, t)) :
    MemoryLedger.SameHistory s t ∨ ∃ x u, (v.door ≠ .commit → Obeys P s v.call.request) ∧
      (AuthorityService.commit P service v.call.request v.call.principal).run
        (MemoryLedger.handle known) s = (.ok x, u) ∧ t.acts = u.acts ∧ t.objects = u.objects := by
  have hcommit : ∀ {r}, (AuthorityService.commit P service v.call.request v.call.principal).run
      (MemoryLedger.handle known) s = (r, t) → (v.door ≠ .commit → Obeys P s v.call.request) →
      MemoryLedger.SameHistory s t ∨ ∃ x u, (v.door ≠ .commit → Obeys P s v.call.request) ∧
        (AuthorityService.commit P service v.call.request v.call.principal).run
          (MemoryLedger.handle known) s = (.ok x, u) ∧ t.acts = u.acts ∧ t.objects = u.objects := by
    rintro (e | x) hrun hobeys
    · rcases AuthorityService.commit_cases hrun with ⟨e', -, hsame⟩ | ⟨E, -, hanswer⟩
      · exact Or.inl hsame
      · rcases hanswer with ⟨a, h, -⟩ | ⟨E', a, k, h, -⟩ | ⟨a, h, -⟩ <;> cases h
    · exact Or.inr ⟨x, t, hobeys, hrun, rfl, rfl⟩
  rw [answer] at hrun
  rcases hdoor : v.door with _ | _ | _ | op <;> rw [hdoor, Door.serve] at hrun
  · exact hdoor ▸ hcommit hrun fun hne => absurd hdoor hne
  · rcases hvalid : ReviewService.validate v.call.request with e | x
    · rw [ReviewService.submit, hvalid] at hrun
      cases hrun
      exact Or.inl (MemoryLedger.SameHistory.refl _)
    · rw [ReviewService.submit, hvalid] at hrun
      exact hdoor ▸ hcommit hrun fun _ => obeys_of_review hvalid
  · rcases hvalid : ObservationService.validate v.call.request with e | x
    · rw [ObservationService.admitObservation, hvalid] at hrun
      cases hrun
      exact Or.inl (MemoryLedger.SameHistory.refl _)
    · rw [ObservationService.admitObservation, hvalid] at hrun
      exact hdoor ▸ hcommit hrun fun _ => obeys_of_observation hvalid
  · rcases PrincipalService.submit_cases hrun with ⟨-, hsame⟩ | ⟨payload, x, u, hreq, hok, -, rfl⟩
    · exact Or.inl hsame
    · exact Or.inr ⟨x, u, fun _ => obeys_of_principal (PrincipalService.requirePayload_ok hreq).2.1,
        hok, PrincipalService.write_acts, PrincipalService.write_objects⟩

/-! ### One call -/

/-- **An admitted Act obeys the law exactly when its request did**: it cites the payload of
the request, which reads back as it was. -/
theorem payloadLaw_iff_obeys {E : EvaluatedAction} {a : Act}
    (hread : ∀ payload, request.payload = some payload → ReadsBack P payload)
    (h : AuthorityService.Committed P service known s t request principal E a) :
    PayloadLaw a.actType a.identityHash (fieldsAt P t.objects a.payloadHash) ↔
      Obeys P s request := by
  obtain ⟨u, hsame, hadm, hplaced, hstore⟩ := h.admitted
  obtain ⟨-, hidentity, hcites, -⟩ := ActionRequest.command_ok h.evaluation.command
  have htype : a.actType = request.actType := hadm.actType.trans h.evaluation.actType
  have hsigner : a.identityHash = request.identityHash :=
    hadm.identityHash.trans (hadm.signer.trans hidentity)
  have hpayloadHash : a.payloadHash = request.payloadHash := hadm.payloadHash.trans hcites
  rw [htype, hsigner, hpayloadHash, Obeys]
  rcases hpayload : request.payload with _ | payload
  · obtain ⟨found, hfound⟩ :=
      Option.isSome_iff_exists.mp (h.evaluation.payloadStored hpayload)
    rw [fieldsAt, fieldsAt, hfound, Dict.get?_of_le (hsame.objects.trans hplaced.objects) hfound]
  · obtain ⟨canon, hcanon, hobject⟩ := hstore payload hpayload
    rw [fieldsAt, Dict.get?_of_le hplaced.objects hobject]
    exact payloadLaw_congr (hread payload hpayload canon hcanon)

/-- **What one call does to a governed ledger**: it adds no Act, and the ledger stays
governed; or it adds one, and the ledger stays governed exactly when the request obeys the
law. Where the call did not come through the generic door, it does. -/
theorem governed_step (hs : Governed P s) (v : Visit)
    (hread : ∀ payload, v.call.request.payload = some payload → ReadsBack P payload) :
    ((step P service known s v).acts = s.acts ∧ Governed P (step P service known s v)) ∨
      (Governed P (step P service known s v) ↔ Obeys P s v.call.request) ∧
        (v.door ≠ .commit → Obeys P s v.call.request) := by
  rw [step]
  rcases hrun : answer P service known s v with ⟨r, t⟩
  dsimp only
  rcases answer_cases hrun with hsame | ⟨x, u, hobeys, hcommit, hacts, hobjects⟩
  · exact Or.inl ⟨hsame.acts, governed_of_grown hs hsame.acts hsame.objects⟩
  obtain ⟨E, -, -, hanswer⟩ := AuthorityService.commit_ok hcommit
  rcases hanswer with ⟨-, -, rfl⟩ | ⟨k, -, -, -, hsame⟩ | ⟨-, hcommitted⟩
  · exact Or.inl ⟨hacts, governed_of_grown hs hacts hobjects.ge⟩
  · refine Or.inl ⟨hacts.trans hsame.acts, ?_⟩
    exact governed_of_grown hs (hacts.trans hsame.acts) (hsame.objects.trans hobjects.ge)
  · refine Or.inr ⟨?_, hobeys⟩
    rw [← payloadLaw_iff_obeys hread hcommitted, ← hobjects]
    obtain ⟨w, hsame, hadm, hplaced, -⟩ := hcommitted.admitted
    have hget : ∀ k b, t.acts.get? k = some b ↔
        (k = x.2.hash ∧ b = x.2) ∨ s.acts.get? k = some b := by
      intro k b
      rw [hacts, hplaced.get?_iff hadm.fresh, hsame.acts]
    have hle : s.objects ≤ t.objects := by
      rw [hobjects]
      exact hsame.objects.trans hplaced.objects
    constructor
    · intro h
      exact h _ _ ((hget _ _).mpr (Or.inl ⟨rfl, rfl⟩))
    · intro h k b hb
      rcases (hget k b).mp hb with ⟨-, rfl⟩ | hold
      · exact h
      · exact payloadLaw_of_le hle (hs k b hold)

/-! ### Runs -/

open Runs in
/-- **Payload laws hold through every door** in every run in which nothing passes the
generic door against the law: then every Act of history obeys the law of its type, after
every call. And that condition is exact: a call that adds an Act to a governed ledger leaves
it governed if and only if its request obeys the law, and what comes through the other doors
does. -/
theorem payload_laws (P : Primitives) (service : AuthorityService)
    (known : MemoryLedger → String → String → Cut → Bool) (s : MemoryLedger)
    (hs : Governed P s) (visits : List Visit)
    (hread : ∀ v ∈ visits, ∀ payload, v.call.request.payload = some payload →
      ReadsBack P payload) :
    ((∀ pre v, Made visits pre v → v.door = .commit →
        Obeys P (exec P service known s pre) v.call.request) →
      ∀ pre, pre <+: visits → Governed P (exec P service known s pre)) ∧
    ∀ pre v, Made visits pre v → Governed P (exec P service known s pre) →
      (exec P service known s (pre ++ [v])).acts ≠ (exec P service known s pre).acts →
      (Governed P (exec P service known s (pre ++ [v])) ↔
        Obeys P (exec P service known s pre) v.call.request) ∧
      (v.door ≠ .commit → Obeys P (exec P service known s pre) v.call.request) := by
  have hconcat : ∀ pre v, exec P service known s (pre ++ [v]) =
      step P service known (exec P service known s pre) v := fun _ _ => exec_concat
  constructor
  · intro hdoors pre hpre
    -- On the visits made so far.
    induction pre using List.reverseRecOn with
    | nil => exact hs
    | append_singleton pre v ih =>
      have hmade : Made visits pre v := hpre
      rw [hconcat]
      rcases governed_step (ih hmade.earlier) v (hread v hmade.mem) with
        ⟨-, hgoverned⟩ | ⟨hiff, hobeys⟩
      · exact hgoverned
      · refine hiff.mpr ?_
        by_cases hdoor : v.door = .commit
        · exact hdoors pre v hmade hdoor
        · exact hobeys hdoor
  · intro pre v hmade hgoverned hadded
    rw [hconcat] at hadded ⊢
    rcases governed_step hgoverned v (hread v hmade.mem) with ⟨hacts, -⟩ | hcall
    · exact absurd hacts hadded
    · exact hcall

/-! ### The generic door -/

/-- A ledger after its genesis, in which observations are registered. -/
def observatory : MemoryLedger :=
  Sample.ledger Sample.pad [] [Sample.root] (Sample.names ++
    [("command_type", "AdmitObservation"), ("act_type", "ObservationAdmitted")])

/-- An observation of nothing, by nobody. -/
def emptyObservation : ActionRequest :=
  Sample.signedRequest "AdmitObservation" "ObservationAdmitted" "o-1" []

/-- A review of nothing, without an outcome. -/
def strayReview : ActionRequest :=
  Sample.signedRequest "ReviewAuthorization" "AuthorizationReviewed" "r-1"
    [("reviewed_command_hash", .str "nothing")]

/-- The ledger a request leaves behind at the generic door. -/
def admitted (request : ActionRequest) : MemoryLedger :=
  exec Sample.libraries Sample.authority MemoryLedger.registered observatory
    [⟨.commit, ⟨request, none⟩⟩]

/-- **The generic door admits what the other doors refuse**: an observation and a review
whose payloads break the law. -/
theorem not_governed :
    (¬Governed Sample.libraries (admitted emptyObservation) ∧
        ((ObservationService.admitObservation Sample.libraries Sample.authority emptyObservation
          none).run (MemoryLedger.handle MemoryLedger.registered) observatory).1.toOption = none) ∧
      ¬Governed Sample.libraries (admitted strayReview) ∧
        ((ReviewService.submit Sample.libraries Sample.authority strayReview none).run
          (MemoryLedger.handle MemoryLedger.registered) observatory).1.toOption = none := by
  refine ⟨⟨fun h => ?_, by decide +kernel⟩, fun h => ?_, by decide +kernel⟩
  · have hstray : (admitted emptyObservation).acts.values.any (fun a =>
        a.actType = "ObservationAdmitted" ∧ stringField (fieldsAt Sample.libraries
          (admitted emptyObservation).objects a.payloadHash) "observer_identity_hash" = none)
            = true := by decide +kernel
    obtain ⟨a, ha, hbad⟩ := List.any_eq_true.mp hstray
    obtain ⟨htype, hnobody⟩ := of_decide_eq_true hbad
    obtain ⟨k, hk⟩ := Dict.mem_values_iff.mp ha
    have hobserver := ((h k a hk).1 htype).observer
    rw [hnobody] at hobserver
    cases hobserver
  · have hstray : (admitted strayReview).acts.values.any (fun a =>
        a.actType = "AuthorizationReviewed" ∧ stringField (fieldsAt Sample.libraries
          (admitted strayReview).objects a.payloadHash) "outcome" = none) = true := by
      decide +kernel
    obtain ⟨a, ha, hbad⟩ := List.any_eq_true.mp hstray
    obtain ⟨htype, hnone⟩ := of_decide_eq_true hbad
    obtain ⟨k, hk⟩ := Dict.mem_values_iff.mp ha
    obtain ⟨outcome, -, houtcome⟩ := ((h k a hk).2 htype).outcome
    rw [hnone] at houtcome
    cases houtcome

/-- What an observation by the root Identity says. -/
def sighting : List (String × CanonValue) :=
  [("effect_phase", .str "observed"), ("evidence_hashes", strings [Sample.root.hash]),
    ("observer_identity_hash", .str Sample.root.hash)]

/-- A reader that knows this observation. -/
def readSighting (canon : Bytes) : Option CanonValue :=
  if canon = Sample.text (.dict sighting) then some (.dict sighting) else Sample.read canon

theorem readSighting_self :
    readSighting (Sample.text (.dict sighting)) = some (.dict sighting) := by
  rw [readSighting, if_pos rfl]

/-- The sample libraries, with that reader. -/
def observing : Primitives := { Sample.libraries with loads := readSighting }

theorem readsBack_sighting : ReadsBack observing (.dict sighting) := by
  intro canon hcanon key w hw
  have hloads : observing.loads canon = some (.dict sighting) := by
    change readSighting canon = _
    rw [← Except.ok.inj hcanon]
    exact readSighting_self
  rw [hloads]

/-- The observation is admitted through its own door, and a thing is created through the
generic one. -/
def lawful : List Visit :=
  [⟨.observation, ⟨Sample.signedRequest "AdmitObservation" "ObservationAdmitted" "o-2" sighting,
      none⟩⟩, ⟨.commit, ⟨Sample.createThing, none⟩⟩]

/-- An observation and a change, each through its door, leave the ledger governed. -/
theorem payload_laws_lawful :
    (exec observing Sample.authority MemoryLedger.registered observatory
        lawful).acts.values.length = 3 ∧
      Governed observing (exec observing Sample.authority MemoryLedger.registered observatory
        lawful) := by
  refine ⟨by decide +kernel, (payload_laws observing Sample.authority MemoryLedger.registered
    observatory ?_ lawful ?_).1 ?_ _ List.prefix_rfl⟩
  · intro k a ha
    obtain ⟨-, rfl⟩ := Sample.get?_ledger ha
    exact ⟨fun h => absurd h (by decide), fun h => absurd h (by decide)⟩
  · intro v hv payload hpayload
    rcases List.mem_pair.mp hv with rfl | rfl <;> cases hpayload
    · exact readsBack_sighting
    · intro canon hcanon key w hw
      cases hcanon
      exact Iff.rfl
  · rw [Runs.forall_made_iff]
    intro i hi hdoor
    obtain rfl | rfl : i = 0 ∨ i = 1 := by
      simp only [lawful, List.length_cons, List.length_nil] at hi
      omega
    · cases hdoor
    · have hthing : lawful[1].call.request.actType = "ThingCreated" := rfl
      refine ⟨fun h => ?_, fun h => ?_⟩
      · rw [hthing] at h
        exact absurd h (by decide)
      · rw [hthing] at h
        exact absurd h (by decide)

end Doors

end PowerfarmKernel
