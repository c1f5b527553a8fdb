import Mathlib.Data.Finset.Card
import Mathlib.Order.WellFounded
import PowerfarmKernel.Kernel.Review

/-!
# Where a chain points

The gate drops the links of a chain that are no Acts before it looks at the chain, and for
most Act types it does not look at all; the chain is stored as it came.
`PowerfarmKernel.Gate.chains_point_into_history` says which Acts have a dangling link:
exactly those whose call brought one.

Of a resolution the gate asks that its chain links a request of the Command and a review of
it. It does not ask which came first. `PowerfarmKernel.Gate.review_follows_request` says
what the order of admissions makes of that: a request stands before every linked review
unless some linked review stands before every request.
-/

namespace PowerfarmKernel

namespace Gate

open Runs

variable {P : Primitives} {known : MemoryLedger → String → String → Cut → Bool}
  {s : MemoryLedger} {c : Submission} {a b q r w : Act} {k : Hash} {calls pre : List Submission}

/-! ### Links that are Acts -/

/-- **The chain of an Act points into history**: every link is an Act it has decided on. -/
def PointsIntoHistory (a : Act) : Prop := ∀ link ∈ a.authChain, link ∈ a.decisionCut

/-- Every link of a call's chain is an Act already. -/
def LinksHistory (s : MemoryLedger) (c : Submission) : Prop :=
  ∀ link ∈ c.authChain, link ∈ stored s

theorem Admitted.pointsIntoHistory_iff (h : Admitted P known s calls pre c a) :
    PointsIntoHistory a ↔ LinksHistory (exec P known s pre) c := by
  rw [PointsIntoHistory, LinksHistory, h.admits.admission.authChain]
  exact forall₂_congr fun link _ => h.mem_decisionCut

/-- **The chain of an admitted Act points into history exactly when the chain of its call
did**; so in every run whose calls link Acts only, every chain stored in it points into
history. -/
theorem chains_point_into_history (P : Primitives)
    (known : MemoryLedger → String → String → Cut → Bool) (s : MemoryLedger)
    (calls : List Submission) :
    (∀ pre c a, Admitted P known s calls pre c a →
        (PointsIntoHistory a ↔ LinksHistory (exec P known s pre) c)) ∧
      ((∀ pre c, Made calls pre c → LinksHistory (exec P known s pre) c) →
        ∀ pre, pre <+: calls → ∀ k a, (exec P known s pre).acts.get? k = some a →
          s.acts.get? k = none → PointsIntoHistory a) := by
  refine ⟨fun pre c a hadm => hadm.pointsIntoHistory_iff, ?_⟩
  intro hcalls pre hpre k a ha hnew
  rcases get?_exec_cases ha with hstart | ⟨pre', c, hadm, -⟩
  · rw [hnew] at hstart
    cases hstart
  · exact hadm.pointsIntoHistory_iff.mpr (hcalls pre' c (hadm.made.mono hpre))

/-- A call whose chain links nothing that exists. -/
def askDangling : Submission := Sample.ask Sample.create "ThingCreated" .allow {"0000"} ["beef"]

/-- **An Act with a dangling link is stored.** -/
theorem dangling_link_stored : ¬∀ k a, (exec (Sample.primitives "") MemoryLedger.registered
    Sample.store [askDangling]).acts.get? k = some a → Sample.store.acts.get? k = none →
      PointsIntoHistory a := by
  intro hpoints
  have hstored : (exec (Sample.primitives "") MemoryLedger.registered Sample.store
      [askDangling]).acts.get? "259a"
      = some (CommitGate.actOf askDangling "259a" Sample.created "736b") := by
    decide +kernel
  exact absurd (hpoints _ _ hstored (by decide) "beef" (by decide)) (by decide)

/-! ### Reviews and requests -/

/-- A linked request of the Command that the Act resolves. -/
def LinksRequest (s : MemoryLedger) (r q : Act) : Prop :=
  Links s r q ∧ IsRequest r.commandHash q

/-- A linked review. -/
def LinksReview (s : MemoryLedger) (r w : Act) : Prop :=
  Links s r w ∧ w.actType = "AuthorizationReviewed"

/-- **The reviews of a resolution answer the request it resolves**: one of the requests it
links stands before every review it links. -/
def AnswersRequest (s : MemoryLedger) (r : Act) : Prop :=
  ∃ q, LinksRequest s r q ∧ ∀ w, LinksReview s r w → q.hash ∈ w.decisionCut

/-- A request or a review that stands in a run was admitted in it. -/
theorem Genesis.admitted (hs : Genesis s) (ha : (exec P known s calls).acts.get? k = some a)
    (htype : a.actType = "ReviewRequested" ∨ a.actType = "AuthorizationReviewed") :
    ∃ pre c, Admitted P known s calls pre c a := by
  rcases get?_exec_cases ha with hinit | ⟨pre, c, hadm, -⟩
  · have hnone := hs.noReviews k a hinit
    exact absurd htype (not_or.mpr ⟨hnone.1, hnone.2.1⟩)
  · exact ⟨pre, c, hadm⟩

theorem LinksRequest.admitted (hs : Genesis s) (hq : LinksRequest (exec P known s calls) r q) :
    ∃ pre c, Admitted P known s calls pre c q := by
  obtain ⟨⟨link, -, -, hget⟩, htype, -⟩ := hq
  exact hs.admitted hget (Or.inl htype)

theorem LinksReview.admitted (hs : Genesis s) (hw : LinksReview (exec P known s calls) r w) :
    ∃ pre c, Admitted P known s calls pre c w := by
  obtain ⟨⟨link, -, -, hget⟩, htype⟩ := hw
  exact hs.admitted hget (Or.inr htype)

/-- **A linked request and a linked review stand in one line.** -/
theorem LinksRequest.ordered (hs : Genesis s) (hq : LinksRequest (exec P known s calls) r q)
    (hw : LinksReview (exec P known s calls) r w) :
    Xor (q.hash ∈ w.decisionCut) (w.hash ∈ q.decisionCut) := by
  obtain ⟨pre, c, hadm⟩ := hq.admitted hs
  obtain ⟨pre', c', hadm'⟩ := hw.admitted hs
  refine hadm.ordered hadm' ?_
  rintro rfl
  have htype := hq.2.1.symm.trans hw.2
  exact absurd htype (by decide)

/-- The first of the linked requests: every other has decided on it. -/
theorem exists_first_request (hs : Genesis s) (hq : LinksRequest (exec P known s calls) r q) :
    ∃ q₀, LinksRequest (exec P known s calls) r q₀ ∧
      ∀ q, LinksRequest (exec P known s calls) r q → q = q₀ ∨ q₀.hash ∈ q.decisionCut := by
  obtain ⟨q₀, hq₀, hleast⟩ := (measure fun q : Act => q.decisionCut.card).wf.has_min
    {q | LinksRequest (exec P known s calls) r q} ⟨q, hq⟩
  refine ⟨q₀, hq₀, fun q hq => ?_⟩
  by_contra hnot
  rw [not_or] at hnot
  obtain ⟨pre, c, hadm⟩ := LinksRequest.admitted hs hq
  obtain ⟨pre₀, c₀, hadm₀⟩ := LinksRequest.admitted hs hq₀
  obtain ⟨hbefore, -⟩ | ⟨hcut, -⟩ := hadm.ordered hadm₀ hnot.1
  · -- An earlier request has decided on less.
    have hself : q.hash ∉ q.decisionCut := fun hmem =>
      Dict.get?_eq_none_iff.mp hadm.admits.fresh (hadm.mem_decisionCut.mp hmem)
    refine hleast q hq (Finset.card_lt_card ⟨hadm.decisionCut_subset hadm₀ hbefore, ?_⟩)
    exact fun hsubset => hself (hsubset hbefore)
  · exact hnot.2 hcut

/-- **What the gate makes of a resolution.** In every state it can bring a genesis store to,
a resolution links a request of its Command and a review, all of them among the Acts it has
decided on, and every review it links names its Command. A linked request and a linked
review stand in one line, in either order; and one of the requests stands before all the
reviews exactly when no review stands before all the requests. -/
theorem review_follows_request (P : Primitives)
    (known : MemoryLedger → String → String → Cut → Bool) (s : MemoryLedger) (hs : Genesis s)
    (calls : List Submission) (k : Hash) (r : Act)
    (hr : (exec P known s calls).acts.get? k = some r)
    (htype : r.actType = "AuthorizationResolved") :
    RestsOnReview P (exec P known s calls) r ∧
      (∀ q w, LinksRequest (exec P known s calls) r q → LinksReview (exec P known s calls) r w →
        Xor (q.hash ∈ w.decisionCut) (w.hash ∈ q.decisionCut)) ∧
      (AnswersRequest (exec P known s calls) r ↔
        ¬∃ w, LinksReview (exec P known s calls) r w ∧
          ∀ q, LinksRequest (exec P known s calls) r q → w.hash ∈ q.decisionCut) := by
  have hrests : RestsOnReview P (exec P known s calls) r := hs.restsOnReview hr htype
  refine ⟨hrests, fun q w hq hw => hq.ordered hs hw, ?_⟩
  constructor
  · rintro ⟨q, hq, hanswers⟩ ⟨w, hw, hbefore⟩
    rcases hq.ordered hs hw with ⟨-, hnot⟩ | ⟨-, hnot⟩
    · exact hnot (hbefore q hq)
    · exact hnot (hanswers w hw)
  · intro hnone
    obtain ⟨q, hq, hrequest⟩ := hrests.1
    obtain ⟨q₀, hq₀, hfirst⟩ := exists_first_request hs ⟨hq, hrequest⟩
    refine ⟨q₀, hq₀, fun w hw => ?_⟩
    by_contra hlate
    -- The review stands before the first request, and so before all of them.
    have hbefore : w.hash ∈ q₀.decisionCut := by
      rcases hq₀.ordered hs hw with ⟨hcut, -⟩ | ⟨hcut, -⟩
      · exact absurd hcut hlate
      · exact hcut
    refine hnone ⟨w, hw, fun q hq => ?_⟩
    rcases hfirst q hq with rfl | hcut
    · exact hbefore
    · obtain ⟨pre, c, hadm⟩ := LinksRequest.admitted hs hq
      obtain ⟨pre₀, c₀, hadm₀⟩ := LinksRequest.admitted hs hq₀
      exact hadm₀.decisionCut_subset hadm hcut hbefore

/-- The one review of the sample run answers the one request: no review stands before it. -/
theorem review_follows_request_resolution :
    AnswersRequest (exec (Sample.primitives "") MemoryLedger.registered Sample.store
      (reviewedRun .allow)) Sample.resolution := by
  have hresolution : (exec (Sample.primitives "") MemoryLedger.registered Sample.store
      (reviewedRun .allow)).acts.get? "998c" = some Sample.resolution := by
    rw [Dict.get?_eq_some_iff, reviewedRun, entries_reviewed]
    exact .tail _ (.tail _ (.tail _ (.head _)))
  have hrequest : (exec (Sample.primitives "") MemoryLedger.registered Sample.store
      (reviewedRun .allow)).acts.get? "ff58" = some Sample.request := by
    rw [Dict.get?_eq_some_iff, reviewedRun, entries_reviewed]
    exact .tail _ (.head _)
  refine (review_follows_request (Sample.primitives "") MemoryLedger.registered Sample.store
    (genesis_ledger _ _ _ _) (reviewedRun .allow) _ _ hresolution rfl).2.2.mpr ?_
  rintro ⟨w, ⟨⟨link, hlink, -, hget⟩, htype⟩, hbefore⟩
  have hcut := hbefore Sample.request ⟨⟨"ff58", by decide, by decide, hrequest⟩, rfl, rfl⟩
  have hnone : ∀ e ∈ (exec (Sample.primitives "") MemoryLedger.registered Sample.store
      (reviewedRun .allow)).acts.entries,
      e.2.actType = "AuthorizationReviewed" → e.2.hash ∉ Sample.request.decisionCut := by
    rw [reviewedRun, entries_reviewed]
    decide
  exact hnone _ (Dict.get?_eq_some_iff.mp hget) htype hcut

/-- A Command that is reviewed before it is put under review, the review then being linked by
the resolution. -/
def earlyRun : List Submission :=
  [Sample.ask Sample.review "AuthorizationReviewed" .allow {"0000"} [],
    Sample.ask Sample.create "ReviewRequested" .requireReview {"0000", "e72c"} [],
    Sample.ask Sample.create "AuthorizationResolved" .allow {"0000", "e72c", "10f5"}
      ["10f5", "e72c"]]

/-- Every call of that run admits its Act. -/
theorem entries_earlyRun :
    (exec (Sample.primitives "") MemoryLedger.registered Sample.store earlyRun).acts.entries
      = [("0000", Sample.genesis ""),
          ("e72c", CommitGate.actOf (Sample.ask Sample.review "AuthorizationReviewed" .allow
            {"0000"} []) "e72c" "f107" "736b"),
          ("10f5", CommitGate.actOf (Sample.ask Sample.create "ReviewRequested" .requireReview
            {"0000", "e72c"} []) "10f5" Sample.created "736b"),
          ("25a8", CommitGate.actOf (Sample.ask Sample.create "AuthorizationResolved" .allow
            {"0000", "e72c", "10f5"} ["10f5", "e72c"]) "25a8" Sample.created "736b")] := by
  decide +kernel

/-- **A review is reused for a request made after it.** -/
theorem not_answersRequest :
    ¬∀ k r, (exec (Sample.primitives "") MemoryLedger.registered Sample.store
        earlyRun).acts.get? k = some r → r.actType = "AuthorizationResolved" →
      AnswersRequest (exec (Sample.primitives "") MemoryLedger.registered Sample.store
        earlyRun) r := by
  intro hanswers
  have hresolution : (exec (Sample.primitives "") MemoryLedger.registered Sample.store
      earlyRun).acts.get? "25a8" = some (CommitGate.actOf (Sample.ask Sample.create
        "AuthorizationResolved" .allow {"0000", "e72c", "10f5"} ["10f5", "e72c"])
        "25a8" Sample.created "736b") := by
    rw [Dict.get?_eq_some_iff, entries_earlyRun]
    exact .tail _ (.tail _ (.tail _ (.head _)))
  have hreview : (exec (Sample.primitives "") MemoryLedger.registered Sample.store
      earlyRun).acts.get? "e72c" = some (CommitGate.actOf (Sample.ask Sample.review
        "AuthorizationReviewed" .allow {"0000"} []) "e72c" "f107" "736b") := by
    rw [Dict.get?_eq_some_iff, entries_earlyRun]
    exact .tail _ (.head _)
  obtain ⟨q, ⟨⟨link, hlink, -, hq⟩, hrequest, -⟩, hfollows⟩ := hanswers _ _ hresolution rfl
  have hmem : q.hash ∈ ({"0000"} : Cut) :=
    hfollows _ ⟨⟨"e72c", by decide, by decide, hreview⟩, rfl⟩
  -- Only genesis was seen by the review, and it requests nothing.
  have hnone : ∀ e ∈ (exec (Sample.primitives "") MemoryLedger.registered Sample.store
      earlyRun).acts.entries, e.2.actType = "ReviewRequested" → e.2.hash ≠ "0000" := by
    rw [entries_earlyRun]
    decide
  exact hnone _ (Dict.get?_eq_some_iff.mp hq) hrequest (Finset.mem_singleton.mp hmem)

end Gate

end PowerfarmKernel
