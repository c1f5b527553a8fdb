import PowerfarmKernel.Kernel.Outcomes

/-!
# Review chains

A Command goes under review with a `ReviewRequested` Act; a reviewer's own Command
produces an `AuthorizationReviewed` Act whose payload names the Command under review;
an `AuthorizationResolved` Act of the Command links both; and the change the Command
asks for links the resolution. The gate looks at a chain when an Act is admitted, and
what it saw stays true, because what a chain links was stored when it was checked, and
nothing stored is lost.

* `PowerfarmKernel.Gate.review_chain_sound`: from every consequence of a Command under
  review, a complete proof – request, review, resolution – is reached by links.
* `PowerfarmKernel.Gate.denial_respected`: the gate asks *whether* a Command was
  resolved, not *how*. A consequence rests on an allowed resolution exactly when its
  chain does not consist of denials.
* `PowerfarmKernel.Gate.requests_answered`: one resolution serves every request of its
  Command. Every request made before a consequence is answered exactly when no request
  was left pending.
-/

namespace PowerfarmKernel

namespace Gate

open Runs

variable {P : Primitives} {known : MemoryLedger → String → String → Cut → Bool}
  {s t : MemoryLedger} {c : Submission} {a b r : Act} {k commandHash target : Hash}
  {calls pre : List Submission}

/-! ### Genesis -/

/-- **A genesis store**: no review has happened, and the Acts that stand there have
decided on each other at most. -/
structure Genesis (s : MemoryLedger) : Prop where
  noReviews : ∀ k a, s.acts.get? k = some a → a.actType ≠ "ReviewRequested" ∧
    a.actType ≠ "AuthorizationReviewed" ∧ a.actType ≠ "AuthorizationResolved"
  cuts : ∀ k a, s.acts.get? k = some a → ∀ h ∈ a.decisionCut, h ∈ s.acts.keys

/-! ### Payloads and links -/

/-- **A stored payload names a Command**: its bytes are a JSON object whose
`reviewed_command_hash` is that string. -/
def NamesTarget (P : Primitives) (s : MemoryLedger) (payloadHash target : Hash) : Prop :=
  ∃ canon kind payload, s.objects.get? payloadHash = some (canon, kind) ∧
    P.loads canon = some (.dict payload) ∧
    field payload "reviewed_command_hash" = some (.str target)

theorem stringField_eq_some_iff {items : List (String × CanonValue)} {key value : String} :
    stringField items key = some value ↔ field items key = some (.str value) := by
  rw [stringField]
  rcases field items key with _ | v
  · simp
  · cases v <;> simp

theorem declaredTarget_eq_some_iff {canon : Bytes} :
    CommitGate.declaredTarget P canon = some target ↔
      ∃ payload, P.loads canon = some (.dict payload) ∧
        field payload "reviewed_command_hash" = some (.str target) := by
  rw [CommitGate.declaredTarget]
  rcases P.loads canon with _ | v
  · simp
  · cases v <;> simp [stringField_eq_some_iff]

theorem reviewTarget_eq_some_iff {payloadHash : Hash} :
    s.reviewTarget P payloadHash = some target ↔ NamesTarget P s payloadHash target := by
  rw [MemoryStore.reviewTarget, MemoryStore.objectCanon, Option.bind_eq_some_iff]
  constructor
  · rintro ⟨canon, hcanon, htarget⟩
    obtain ⟨⟨canon', kind⟩, hobj, rfl⟩ := Option.map_eq_some_iff.mp hcanon
    obtain ⟨payload, hload, hfield⟩ := declaredTarget_eq_some_iff.mp htarget
    exact ⟨canon', kind, payload, hobj, hload, hfield⟩
  · rintro ⟨canon, kind, payload, hobj, hload, hfield⟩
    exact ⟨canon, by rw [hobj]; rfl, declaredTarget_eq_some_iff.mpr ⟨payload, hload, hfield⟩⟩

/-- What a payload names, it names from then on. -/
theorem NamesTarget.mono {payloadHash : Hash} (h : NamesTarget P s payloadHash target)
    (hle : s.objects ≤ t.objects) : NamesTarget P t payloadHash target := by
  obtain ⟨canon, kind, payload, hobj, hload, hfield⟩ := h
  exact ⟨canon, kind, payload, hle _ _ hobj, hload, hfield⟩

/-- **The chain of the Act `a` links the Act `b`**, one of those `a` has decided on. -/
def Links (s : MemoryLedger) (a b : Act) : Prop :=
  ∃ link ∈ a.authChain, link ∈ a.decisionCut ∧ s.acts.get? link = some b

/-- **The links of an admitted Act** are what its chain linked when it was admitted. -/
theorem Admitted.links_iff (h : Admitted P known s calls pre c a) :
    Links (exec P known s calls) a b ↔ Linked (exec P known s pre).toMemoryStore c.authChain b := by
  have hchain := h.admits.admission.authChain
  have hle : (exec P known s pre).acts ≤ (exec P known s calls).acts :=
    acts_le_exec h.made.earlier
  constructor
  · rintro ⟨link, hlink, hcut, hget⟩
    obtain ⟨b', hb'⟩ := Dict.mem_keys_iff.mp (h.mem_decisionCut.mp hcut)
    have heq := hget.symm.trans (hle _ _ hb')
    cases heq
    exact ⟨link, hchain ▸ hlink, hb'⟩
  · rintro ⟨link, hlink, hget⟩
    exact ⟨link, hchain ▸ hlink, h.mem_decisionCut.mpr (Dict.mem_keys_of_get? hget),
      hle _ _ hget⟩

/-! ### What history says of a Command -/

/-- A `ReviewRequested` Act of a Command. -/
def IsRequest (commandHash : Hash) (a : Act) : Prop :=
  a.actType = "ReviewRequested" ∧ a.commandHash = commandHash

/-- An `AuthorizationResolved` Act of a Command. -/
def IsResolution (commandHash : Hash) (a : Act) : Prop :=
  a.actType = "AuthorizationResolved" ∧ a.commandHash = commandHash

/-- A review was requested of a Command. -/
def UnderReview (s : MemoryLedger) (commandHash : Hash) : Prop :=
  ∃ k q, s.acts.get? k = some q ∧ IsRequest commandHash q

/-- A request of a run was admitted by it, so it is indexed under its Command. -/
theorem Genesis.indexed_of_isRequest (hs : Genesis s)
    (ha : (exec P known s calls).acts.get? k = some a) (hq : IsRequest commandHash a) :
    k ∈ indexed (exec P known s calls) commandHash := by
  rcases get?_exec_cases ha with hinit | ⟨pre, c, hadm, rfl⟩
  · exact absurd hq.1 (hs.noReviews k a hinit).1
  · rw [← hq.2]
    exact hadm.mem_indexed

/-- **A consequence of a Command under review links a resolution of it.** -/
theorem Admitted.linked_resolution (h : Admitted P known s calls pre c a) (hs : Genesis s)
    (hcons : a.IsConsequential) (hreview : UnderReview (exec P known s pre) a.commandHash) :
    ∃ r, Linked (exec P known s pre).toMemoryStore c.authChain r ∧
      IsResolution a.commandHash r := by
  have hadm := h.admits.admission
  have htype : c.actType ∉ lifecycleActTypes := by
    rw [← hadm.actType]
    exact hcons
  obtain ⟨owned, howned, hchain⟩ := hadm.structural.consequential htype
  obtain ⟨k, q, hq, hrequest⟩ := hreview
  have hmem : q ∈ owned := (mem_owned howned).mpr ⟨k, hs.indexed_of_isRequest hq hrequest, hq⟩
  exact hchain ⟨q, hmem, hrequest.1⟩

/-! ### A complete proof behind every consequence -/

/-- **A review stands on a review Command**: its Command is stored, asks for a review,
and its payload names a target. -/
def StandsOnReview (P : Primitives) (s : MemoryLedger) (a : Act) : Prop :=
  ∃ (command : Command) (canon : Bytes), canonicalize P command.signingValue = .ok canon ∧
    s.objects.get? a.commandHash = some (canon, "command") ∧
    command.commandType = CommitGate.reviewCommandType ∧ command.payloadHash = a.payloadHash ∧
    ∃ target, NamesTarget P s a.payloadHash target

/-- **A resolution rests on its proof**: it links a request of its Command and a review,
and every review it links names its Command. -/
def RestsOnReview (P : Primitives) (s : MemoryLedger) (r : Act) : Prop :=
  (∃ q, Links s r q ∧ IsRequest r.commandHash q) ∧
    (∃ w, Links s r w ∧ w.actType = "AuthorizationReviewed") ∧
    ∀ w, Links s r w → w.actType = "AuthorizationReviewed" →
      NamesTarget P s w.payloadHash r.commandHash

theorem Genesis.standsOnReview (hs : Genesis s)
    (ha : (exec P known s calls).acts.get? k = some a)
    (htype : a.actType = "AuthorizationReviewed") :
    StandsOnReview P (exec P known s calls) a := by
  rcases get?_exec_cases ha with hinit | ⟨pre, c, hadm, -⟩
  · exact absurd htype (hs.noReviews k a hinit).2.1
  · have hspec := hadm.admits.admission
    obtain ⟨hcommand, htarget⟩ := hspec.structural.reviewed (hspec.actType.symm.trans htype)
    obtain ⟨canon, hcanon, hobj⟩ := hadm.admits.placed.commandObject
    obtain ⟨target, htarget⟩ := Option.ne_none_iff_exists'.mp htarget
    have hstored : (exec P known s calls).objects.get? a.commandHash = some (canon, "command") := by
      refine objects_le_exec hadm.made _ _ ?_
      rw [exec, exec_concat]
      exact hobj
    refine ⟨c.command, canon, hcanon, hstored, hcommand, hspec.payloadHash.symm, target, ?_⟩
    rw [hspec.payloadHash]
    exact (reviewTarget_eq_some_iff.mp htarget).mono (objects_le_exec hadm.made.earlier)

theorem Genesis.restsOnReview (hs : Genesis s)
    (hr : (exec P known s calls).acts.get? k = some r)
    (htype : r.actType = "AuthorizationResolved") :
    RestsOnReview P (exec P known s calls) r := by
  rcases get?_exec_cases hr with hinit | ⟨pre, c, hadm, -⟩
  · exact absurd htype (hs.noReviews k r hinit).2.2
  · have hspec := hadm.admits.admission
    obtain ⟨⟨q, hq, hrequest⟩, ⟨w, hw, hreview⟩, htargets⟩ :=
      hspec.structural.resolved (hspec.actType.symm.trans htype)
    refine ⟨⟨q, hadm.links_iff.mpr hq, hrequest⟩, ⟨w, hadm.links_iff.mpr hw, hreview⟩, ?_⟩
    intro w' hw' hreview'
    have htarget := htargets w' (hadm.links_iff.mp hw') hreview'
    exact (reviewTarget_eq_some_iff.mp htarget).mono (objects_le_exec hadm.made.earlier)

/-- A consequence that has decided on a request of its Command links a resolution. -/
theorem Genesis.links_resolution (hs : Genesis s)
    (ha : (exec P known s calls).acts.get? k = some a) (hcons : a.IsConsequential)
    (hrequest : ∃ h ∈ a.decisionCut, ∃ q, (exec P known s calls).acts.get? h = some q ∧
      IsRequest a.commandHash q) :
    ∃ r, Links (exec P known s calls) a r ∧ IsResolution a.commandHash r := by
  obtain ⟨h, hcut, q, hq, hqtype⟩ := hrequest
  rcases get?_exec_cases ha with hinit | ⟨pre, c, hadm, -⟩
  · -- An initial Act has decided on initial Acts, and none of them is a request.
    obtain ⟨q', hq'⟩ := Dict.mem_keys_iff.mp (hs.cuts k a hinit h hcut)
    have heq := hq.symm.trans (acts_le_exec (List.nil_prefix) _ _ hq')
    cases heq
    exact absurd hqtype.1 (hs.noReviews h q hq').1
  · obtain ⟨q', hq'⟩ := Dict.mem_keys_iff.mp (hadm.mem_decisionCut.mp hcut)
    have heq := hq.symm.trans (acts_le_exec hadm.made.earlier _ _ hq')
    cases heq
    obtain ⟨r, hr, hres⟩ := hadm.linked_resolution hs hcons ⟨h, q, hq', hqtype⟩
    exact ⟨r, hadm.links_iff.mpr hr, hres⟩

/-- **Review-chain soundness.** In every state the gate can bring a genesis store to:
every review stands on a stored review Command whose payload names a target; every
resolution links, among the Acts it has decided on, a request of its Command and a
review, and every review it links names its Command; and every consequence that has
decided on a request of its Command links a resolution of it, one of the Acts it has
decided on – so that a complete proof is reached by links. -/
theorem review_chain_sound (P : Primitives) (known : MemoryLedger → String → String → Cut → Bool)
    (s : MemoryLedger) (hs : Genesis s) (calls : List Submission) :
    (∀ k a, (exec P known s calls).acts.get? k = some a → a.actType = "AuthorizationReviewed" →
        StandsOnReview P (exec P known s calls) a) ∧
      (∀ k r, (exec P known s calls).acts.get? k = some r →
        r.actType = "AuthorizationResolved" → RestsOnReview P (exec P known s calls) r) ∧
      ∀ k a, (exec P known s calls).acts.get? k = some a → a.IsConsequential →
        (∃ h ∈ a.decisionCut, ∃ q, (exec P known s calls).acts.get? h = some q ∧
          IsRequest a.commandHash q) →
        ∃ r, Links (exec P known s calls) a r ∧ IsResolution a.commandHash r ∧
          (∃ q, Links (exec P known s calls) r q ∧ IsRequest a.commandHash q) ∧
          ∃ w, Links (exec P known s calls) r w ∧ w.actType = "AuthorizationReviewed" ∧
            NamesTarget P (exec P known s calls) w.payloadHash a.commandHash ∧
            StandsOnReview P (exec P known s calls) w := by
  refine ⟨fun k a => hs.standsOnReview, fun k r => hs.restsOnReview, ?_⟩
  intro k a ha hcons hrequest
  obtain ⟨r, hr, hres⟩ := hs.links_resolution ha hcons hrequest
  obtain ⟨link, -, -, hget⟩ := id hr
  obtain ⟨⟨q, hq, hqreq⟩, ⟨w, hw, hwtype⟩, htargets⟩ := hs.restsOnReview hget hres.1
  rw [hres.2] at hqreq
  have htarget := htargets w hw hwtype
  rw [hres.2] at htarget
  obtain ⟨link', -, -, hget'⟩ := id hw
  exact ⟨r, hr, hres, ⟨q, hq, hqreq⟩, w, hw, hwtype, htarget, hs.standsOnReview hget' hwtype⟩

/-- The genesis ceremony leaves a genesis store. -/
theorem genesis_ledger (pad : String) (payloads : List (Hash × List (String × CanonValue)))
    (identities : List Identity) (names : List (String × String)) :
    Genesis (Sample.ledger pad payloads identities names) := by
  constructor
  · intro k a ha
    obtain ⟨-, rfl⟩ := Sample.get?_ledger ha
    have htype : (Sample.genesis pad).actType = "GenesisClosed" := rfl
    rw [htype]
    decide
  · intro k a ha h hh
    obtain ⟨-, rfl⟩ := Sample.get?_ledger ha
    exact absurd hh (Finset.notMem_empty h)

/-- The run looked at below: a Command goes through review, and its change
follows. -/
def reviewedRun (outcome : DecisionKind) : List Submission :=
  Sample.resolved outcome ++ [Sample.consequence]

/-- The last call of that run admits the change, whatever the outcome of the review. -/
theorem admitted_change (outcome : DecisionKind) (h : outcome ≠ .requireReview) :
    Admitted (Sample.primitives "") MemoryLedger.registered Sample.store (reviewedRun outcome)
      (Sample.resolved outcome) Sample.consequence Sample.change := by
  have hadm : Admitted (Sample.primitives "") MemoryLedger.registered Sample.store
      (Sample.resolved .allow ++ [Sample.consequence]) (Sample.resolved .allow) Sample.consequence
      Sample.change :=
    .of_full (congrArg List.length entries_reviewed) List.prefix_rfl
      (by rw [entries_reviewed]; rfl)
  have hsame := exec_resolved outcome h []
  rw [List.append_nil, List.append_nil] at hsame
  refine ⟨List.prefix_rfl, ?_⟩
  rw [hsame]
  exact hadm.admits

/-- The change of a Command that went through review links a complete proof. -/
theorem review_chain_sound_change :
    ∃ r, Links (exec (Sample.primitives "") MemoryLedger.registered Sample.store
        (reviewedRun .allow)) Sample.change r ∧ IsResolution Sample.created r := by
  have hchange := (admitted_change .allow (by decide)).get?
  have hrequest : (exec (Sample.primitives "") MemoryLedger.registered Sample.store
      (reviewedRun .allow)).acts.get? "ff58" = some Sample.request := by
    rw [Dict.get?_eq_some_iff, reviewedRun, entries_reviewed]
    exact .tail _ (.head _)
  obtain ⟨r, hr, hres, -⟩ := (review_chain_sound (Sample.primitives "") MemoryLedger.registered
    Sample.store (genesis_ledger _ _ _ _) (reviewedRun .allow)).2.2 _ _ hchange (by decide)
    ⟨"ff58", by decide, Sample.request, hrequest, rfl, rfl⟩
  exact ⟨r, hr, hres⟩

/-! ### Denied resolutions -/

/-- A resolution of a Command that a chain links. -/
def LinksResolution (s : MemoryLedger) (authChain : List Hash) (commandHash : Hash) (r : Act) :
    Prop :=
  Linked s.toMemoryStore authChain r ∧ IsResolution commandHash r

/-- An Act that the run of `calls` admitted under a Decision with this outcome. -/
def RecordedUnder (P : Primitives) (known : MemoryLedger → String → String → Cut → Bool)
    (s : MemoryLedger) (calls : List Submission) (outcome : DecisionKind) (r : Act) : Prop :=
  ∃ pre c, Admitted P known s calls pre c r ∧ c.decision.outcome = outcome

/-- **A consequence of a Command under review rests on an allowed resolution**: its
chain links a resolution of the Command that was admitted under `allow`. -/
def RestsOnAllowed (P : Primitives) (known : MemoryLedger → String → String → Cut → Bool)
    (s : MemoryLedger) (pre : List Submission) (a : Act) : Prop :=
  ∃ r, LinksResolution (exec P known s pre) a.authChain a.commandHash r ∧
    RecordedUnder P known s pre .allow r

/-- **No denied resolution unlocks a consequence**, in the run of `calls`. -/
def DenialRespected (P : Primitives) (known : MemoryLedger → String → String → Cut → Bool)
    (s : MemoryLedger) (calls : List Submission) : Prop :=
  ∀ pre c a, Admitted P known s calls pre c a → a.IsConsequential →
    UnderReview (exec P known s pre) a.commandHash → RestsOnAllowed P known s pre a

/-- **A call presents denials for a proof**: it asks for a consequence, its chain links
a resolution of its Command, and every resolution of the Command it links was admitted
under `deny`. -/
def PresentsDenials (P : Primitives) (known : MemoryLedger → String → String → Cut → Bool)
    (s : MemoryLedger) (pre : List Submission) (c : Submission) : Prop :=
  c.actType ∉ lifecycleActTypes ∧ ∃ commandHash, c.command.hash P = .ok commandHash ∧
    (∃ r, LinksResolution (exec P known s pre) c.authChain commandHash r) ∧
    ∀ r, LinksResolution (exec P known s pre) c.authChain commandHash r →
      RecordedUnder P known s pre .deny r

/-- A resolution of a run was admitted under `allow` or under `deny`, and under one of
them only. -/
theorem Genesis.recordedUnder_deny_iff (hs : Genesis s)
    (hr : LinksResolution (exec P known s pre) c.authChain commandHash r) :
    RecordedUnder P known s pre .deny r ↔ ¬RecordedUnder P known s pre .allow r := by
  constructor
  · rintro ⟨pre₁, c₁, hadm₁, hdeny⟩ ⟨pre₂, c₂, hadm₂, hallow⟩
    obtain ⟨-, rfl⟩ := hadm₁.unique hadm₂
    rw [hdeny] at hallow
    cases hallow
  · intro hnot
    obtain ⟨⟨link, -, hget⟩, htype, -⟩ := hr
    rcases get?_exec_cases hget with hinit | ⟨pre₁, c₁, hadm, -⟩
    · exact absurd htype (hs.noReviews _ _ hinit).2.2
    · have hspec := hadm.admits.admission
      have houtcome : c₁.decision.outcome = .allow ∨ c₁.decision.outcome = .deny := by
        have hpermitted := hspec.permitted
        rw [← hspec.actType, htype] at hpermitted
        simpa [permittedOutcomes] using hpermitted
      rcases houtcome with hallow | hdeny
      · exact absurd ⟨pre₁, c₁, hadm, hallow⟩ hnot
      · exact ⟨pre₁, c₁, hadm, hdeny⟩

/-- **A consequence of a Command under review rests on an allowed resolution exactly
when its call does not present denials for a proof**; so in every run without such a
call, no denied resolution unlocks a consequence. -/
theorem denial_respected (P : Primitives) (known : MemoryLedger → String → String → Cut → Bool)
    (s : MemoryLedger) (hs : Genesis s) (calls : List Submission) :
    (∀ pre c a, Admitted P known s calls pre c a → a.IsConsequential →
        UnderReview (exec P known s pre) a.commandHash →
        (RestsOnAllowed P known s pre a ↔ ¬PresentsDenials P known s pre c)) ∧
      ((∀ pre c, Made calls pre c → ¬PresentsDenials P known s pre c) →
        DenialRespected P known s calls) := by
  have hiff : ∀ pre c a, Admitted P known s calls pre c a → a.IsConsequential →
      UnderReview (exec P known s pre) a.commandHash →
      (RestsOnAllowed P known s pre a ↔ ¬PresentsDenials P known s pre c) := by
    intro pre c a hadm hcons hreview
    have hspec := hadm.admits.admission
    have hchain := hspec.authChain
    constructor
    · rintro ⟨r, hr, hallow⟩ ⟨-, commandHash, hhash, -, hdeny⟩
      rw [hspec.commandHash] at hhash
      cases hhash
      rw [hchain] at hr
      exact (hs.recordedUnder_deny_iff hr).mp (hdeny r hr) hallow
    · intro hnot
      -- A review demands a linked resolution; if none is allowed, all of them deny.
      by_contra hrests
      obtain ⟨r, hr⟩ := hadm.linked_resolution hs hcons hreview
      refine hnot ⟨hspec.actType ▸ hcons, a.commandHash, hspec.commandHash, ⟨r, hr⟩, ?_⟩
      intro r' hr'
      refine (hs.recordedUnder_deny_iff hr').mpr fun hallow => hrests ⟨r', ?_, hallow⟩
      rw [hchain]
      exact hr'
  refine ⟨hiff, fun hcalls pre c a hadm hcons hreview => ?_⟩
  exact (hiff pre c a hadm hcons hreview).mpr (hcalls pre c hadm.made)

/-- After an allowed resolution, the change rests on it. -/
theorem denial_respected_allowed :
    DenialRespected (Sample.primitives "") MemoryLedger.registered Sample.store
      (reviewedRun .allow) := by
  refine (denial_respected (Sample.primitives "") MemoryLedger.registered Sample.store
    (genesis_ledger _ _ _ _) (reviewedRun .allow)).2 ?_
  rintro pre c hmade ⟨-, commandHash, -, ⟨r, hr⟩, hdeny⟩
  -- No call of this run carries a denial.
  obtain ⟨pre', c', hadm, houtcome⟩ := hdeny r hr
  have hcalls : ∀ c ∈ reviewedRun .allow, c.decision.outcome ≠ .deny := by decide
  exact hcalls c' (hmade.earlier.subset hadm.made.mem) houtcome

/-- **A denied resolution unlocks a consequence.** The Command is put under review, the
review is resolved with `deny`, and a later `allow` decision, its chain linking that
denial, is admitted. -/
theorem not_denialRespected :
    ¬DenialRespected (Sample.primitives "") MemoryLedger.registered Sample.store
      (reviewedRun .deny) := by
  intro hrespected
  have hsame := exec_resolved .deny (by decide) []
  rw [List.append_nil, List.append_nil] at hsame
  have hrequest : (exec (Sample.primitives "") MemoryLedger.registered Sample.store
      (Sample.resolved .deny)).acts.get? "ff58" = some Sample.request := by
    rw [hsame, Dict.get?_eq_some_iff, entries_resolved]
    exact .tail _ (.head _)
  obtain ⟨r, ⟨-, htype, -⟩, pre, c, hadm, hallow⟩ :=
    hrespected _ _ _ (admitted_change .deny (by decide)) (by decide)
      ⟨"ff58", Sample.request, hrequest, rfl, rfl⟩
  have hcalls : ∀ c ∈ Sample.resolved .deny, c.decision.outcome = .allow →
      c.actType ≠ "AuthorizationResolved" := by decide
  exact hcalls c hadm.made.mem hallow (hadm.admits.admission.actType.symm.trans htype)

/-! ### Pending requests -/

/-- **Every request made before a consequence was answered**: a resolution of its
Command, one of those the consequence has decided on, has the request in its chain. -/
def RequestsAnswered (s : MemoryLedger) (a : Act) : Prop :=
  ∀ h ∈ a.decisionCut, ∀ q, s.acts.get? h = some q → IsRequest a.commandHash q →
    ∃ h' ∈ a.decisionCut, ∃ r, s.acts.get? h' = some r ∧ IsResolution a.commandHash r ∧
      h ∈ r.authChain

/-- A request in history that no resolution of its Command has in its chain. -/
def Pending (s : MemoryLedger) (commandHash : Hash) : Prop :=
  ∃ h q, s.acts.get? h = some q ∧ IsRequest commandHash q ∧
    ∀ h' r, s.acts.get? h' = some r → IsResolution commandHash r → h ∉ r.authChain

/-- **A call steps over a pending review**: it asks for a consequence of a Command with
a pending request, its chain linking a resolution of the Command. -/
def StepsOver (P : Primitives) (s : MemoryLedger) (c : Submission) : Prop :=
  c.actType ∉ lifecycleActTypes ∧ ∃ commandHash, c.command.hash P = .ok commandHash ∧
    (∃ r, LinksResolution s c.authChain commandHash r) ∧ Pending s commandHash

/-- **The requests before an admitted consequence are answered exactly when its call
steps over none.** -/
theorem Admitted.requestsAnswered_iff (h : Admitted P known s calls pre c a) (hs : Genesis s)
    (hcons : a.IsConsequential) :
    RequestsAnswered (exec P known s calls) a ↔ ¬StepsOver P (exec P known s pre) c := by
  have hspec := h.admits.admission
  have hle : (exec P known s pre).acts ≤ (exec P known s calls).acts :=
    acts_le_exec h.made.earlier
  -- An Act of the cut is the one that stood there when the call was made.
  have hcut : ∀ {k b}, k ∈ a.decisionCut → (exec P known s calls).acts.get? k = some b →
      (exec P known s pre).acts.get? k = some b := by
    intro k b hk hb
    obtain ⟨b', hb'⟩ := Dict.mem_keys_iff.mp (h.mem_decisionCut.mp hk)
    have heq := hb.symm.trans (hle _ _ hb')
    cases heq
    exact hb'
  constructor
  · rintro hanswered ⟨-, commandHash, hhash, -, k, q, hq, hrequest, hnone⟩
    rw [hspec.commandHash] at hhash
    cases hhash
    obtain ⟨k', hk', r, hr, hres, hlink⟩ :=
      hanswered k (h.mem_decisionCut.mpr (Dict.mem_keys_of_get? hq)) q (hle _ _ hq) hrequest
    exact hnone k' r (hcut hk' hr) hres hlink
  · intro hnot k hk q hq hrequest
    by_contra hunanswered
    have hq' := hcut hk hq
    obtain ⟨r, hr⟩ := h.linked_resolution hs hcons ⟨k, q, hq', hrequest⟩
    refine hnot ⟨hspec.actType ▸ hcons, a.commandHash, hspec.commandHash, ⟨r, hr⟩, k, q, hq',
      hrequest, ?_⟩
    intro k' r' hr' hres' hlink
    exact hunanswered ⟨k', h.mem_decisionCut.mpr (Dict.mem_keys_of_get? hr'), r', hle _ _ hr',
      hres', hlink⟩

/-- **In every run without a call that steps over a pending review, every request made
before a consequence was answered**; and one such call, once admitted, breaks it. -/
theorem requests_answered (P : Primitives) (known : MemoryLedger → String → String → Cut → Bool)
    (s : MemoryLedger) (hs : Genesis s) (calls : List Submission) :
    (∀ pre c a, Admitted P known s calls pre c a → a.IsConsequential →
        (RequestsAnswered (exec P known s calls) a ↔ ¬StepsOver P (exec P known s pre) c)) ∧
      ((∀ pre c, Made calls pre c → ¬StepsOver P (exec P known s pre) c) →
        ∀ k a, (exec P known s calls).acts.get? k = some a → a.IsConsequential →
          RequestsAnswered (exec P known s calls) a) := by
  refine ⟨fun pre c a hadm hcons => hadm.requestsAnswered_iff hs hcons, ?_⟩
  intro hcalls k a ha hcons
  rcases get?_exec_cases ha with hinit | ⟨pre, c, hadm, -⟩
  · -- An initial Act has decided on initial Acts, and none of them is a request.
    intro h hh q hq hrequest
    obtain ⟨q', hq'⟩ := Dict.mem_keys_iff.mp (hs.cuts k a hinit h hh)
    have heq := hq.symm.trans (acts_le_exec List.nil_prefix _ _ hq')
    cases heq
    exact absurd hrequest.1 (hs.noReviews h q hq').1
  · exact (hadm.requestsAnswered_iff hs hcons).mpr (hcalls pre c hadm.made)

/-- A Command that went through one review has answered its one request. -/
theorem requests_answered_once :
    RequestsAnswered (exec (Sample.primitives "") MemoryLedger.registered Sample.store
      (reviewedRun .allow)) Sample.change := by
  refine (requests_answered (Sample.primitives "") MemoryLedger.registered Sample.store
    (genesis_ledger _ _ _ _) (reviewedRun .allow)).2 ?_ _ _
    (admitted_change .allow (by decide)).get? (by decide)
  rintro pre c hmade ⟨hcons, commandHash, hhash, -, k, q, hq, hrequest, hnone⟩
  rcases made_concat_iff.mp hmade with hearlier | ⟨rfl, rfl⟩
  · have hstages : ∀ c ∈ Sample.resolved .allow, c.actType ∈ lifecycleActTypes := by decide
    exact hcons (hstages c hearlier.mem)
  · have hcommand : Sample.consequence.command.hash (Sample.primitives "") = .ok Sample.created :=
      (admitted_change .allow (by decide)).admits.admission.commandHash
    rw [hcommand] at hhash
    cases hhash
    have hresolution : (exec (Sample.primitives "") MemoryLedger.registered Sample.store
        (Sample.resolved .allow)).acts.get? "998c" = some Sample.resolution := by
      rw [Dict.get?_eq_some_iff, entries_resolved]
      exact .tail _ (.tail _ (.tail _ (.head _)))
    have honly : ∀ e ∈ (exec (Sample.primitives "") MemoryLedger.registered Sample.store
        (Sample.resolved .allow)).acts.entries,
        e.2.actType = "ReviewRequested" → e.1 ∈ Sample.resolution.authChain := by
      rw [entries_resolved]
      decide
    exact hnone "998c" Sample.resolution hresolution ⟨rfl, rfl⟩
      (honly _ (Dict.get?_eq_some_iff.mp hq) hrequest.1)

/-- A run in which a Command is put under review twice, and one of the requests is
resolved. -/
def twiceRun : List Submission :=
  [Sample.requestReview,
    Sample.ask Sample.create "ReviewRequested" .requireReview {"0000", "ff58"} [],
    Sample.ask Sample.review "AuthorizationReviewed" .allow {"0000", "ff58", "7aa9"} [],
    Sample.ask Sample.create "AuthorizationResolved" .allow {"0000", "ff58", "7aa9", "9616"}
      ["ff58", "9616"],
    Sample.ask Sample.create "ThingCreated" .allow {"0000", "ff58", "7aa9", "9616", "4259"}
      ["ff58", "9616", "4259"]]

/-- Every call of that run admits its Act. -/
theorem entries_twiceRun :
    (exec (Sample.primitives "") MemoryLedger.registered Sample.store twiceRun).acts.entries
      = [("0000", Sample.genesis ""), ("ff58", Sample.request),
          ("7aa9", CommitGate.actOf (Sample.ask Sample.create "ReviewRequested" .requireReview
            {"0000", "ff58"} []) "7aa9" Sample.created "736b"),
          ("9616", CommitGate.actOf (Sample.ask Sample.review "AuthorizationReviewed" .allow
            {"0000", "ff58", "7aa9"} []) "9616" "f107" "736b"),
          ("4259", CommitGate.actOf (Sample.ask Sample.create "AuthorizationResolved" .allow
            {"0000", "ff58", "7aa9", "9616"} ["ff58", "9616"]) "4259" Sample.created "736b"),
          ("0cf7", CommitGate.actOf (Sample.ask Sample.create "ThingCreated" .allow
            {"0000", "ff58", "7aa9", "9616", "4259"} ["ff58", "9616", "4259"])
            "0cf7" Sample.created "736b")] := by
  decide +kernel

/-- **A consequence steps over a pending review**: the second request is answered by
nothing, and the change is admitted. -/
theorem not_requestsAnswered :
    ¬∀ k a, (exec (Sample.primitives "") MemoryLedger.registered Sample.store
        twiceRun).acts.get? k = some a → a.IsConsequential →
      RequestsAnswered (exec (Sample.primitives "") MemoryLedger.registered Sample.store
        twiceRun) a := by
  intro hanswered
  have hchange : (exec (Sample.primitives "") MemoryLedger.registered Sample.store
      twiceRun).acts.get? "0cf7" = some (CommitGate.actOf (Sample.ask Sample.create "ThingCreated"
        .allow {"0000", "ff58", "7aa9", "9616", "4259"} ["ff58", "9616", "4259"])
        "0cf7" Sample.created "736b") := by
    rw [Dict.get?_eq_some_iff, entries_twiceRun]
    exact .tail _ (.tail _ (.tail _ (.tail _ (.tail _ (.head _)))))
  have hrequest : (exec (Sample.primitives "") MemoryLedger.registered Sample.store
      twiceRun).acts.get? "7aa9" = some (CommitGate.actOf (Sample.ask Sample.create
        "ReviewRequested" .requireReview {"0000", "ff58"} []) "7aa9" Sample.created "736b") := by
    rw [Dict.get?_eq_some_iff, entries_twiceRun]
    exact .tail _ (.tail _ (.head _))
  -- No resolution of the run links the second request.
  have hnone : ∀ e ∈ (exec (Sample.primitives "") MemoryLedger.registered Sample.store
      twiceRun).acts.entries,
      e.2.actType = "AuthorizationResolved" → "7aa9" ∉ e.2.authChain := by
    rw [entries_twiceRun]
    decide
  obtain ⟨k, -, r, hr, hres, hlink⟩ :=
    hanswered _ _ hchange (by decide) "7aa9" (by decide) _ hrequest ⟨rfl, rfl⟩
  exact hnone _ (Dict.get?_eq_some_iff.mp hr) hres.1 hlink

end Gate

end PowerfarmKernel
