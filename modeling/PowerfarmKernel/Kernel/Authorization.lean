import Mathlib.Order.Bounds.Lattice
import PowerfarmKernel.Kernel.Rules
import PowerfarmKernel.Lib.Results

/-!
# The combination of Rules

`PowerfarmKernel.authorize` folds the answers of its Rules, in their order, stopping at the
first that raises. None of that order shows in the outcome: outcomes are ordered by how much
they restrict, `allow` below `require_review` below `deny`, and the outcome of a Decision is
the greatest answer (`PowerfarmKernel.authorize_isGreatest`). So a permutation of the Rules
changes nothing, and a Rule that is added can only restrict
(`PowerfarmKernel.authorize_combination`).

What a Rule may look at is another matter. It declares Context keys, and their presence is
checked; it is then handed the whole Context. `PowerfarmKernel.judgedOnDeclared_iff` says
what that comes to.
-/

namespace PowerfarmKernel

/-! ### The order of outcomes -/

namespace DecisionKind

/-- How much an outcome restricts. -/
def severity : DecisionKind → ℕ
  | .allow => 0
  | .requireReview => 1
  | .deny => 2

theorem severity_injective : Function.Injective severity := by
  intro o o' h
  cases o <;> cases o' <;> first | rfl | cases h

/-- `allow` is below `require_review`, which is below `deny`. -/
instance : LinearOrder DecisionKind := LinearOrder.lift' severity severity_injective

theorem allow_le (o : DecisionKind) : allow ≤ o := Nat.zero_le o.severity

theorem le_deny (o : DecisionKind) : o ≤ deny := by
  change o.severity ≤ 2
  cases o <;> decide

end DecisionKind

/-- **The combined outcome is the greatest one.** -/
theorem combine_isGreatest {results : List RuleResult} (h : results ≠ []) :
    IsGreatest {o | ∃ result ∈ results, result.outcome = o} (combine results) := by
  obtain ⟨first, hfirst⟩ := List.exists_mem_of_ne_nil results h
  rw [combine]
  split
  · rename_i hdeny
    rw [List.any_eq_true] at hdeny
    simp only [decide_eq_true_eq] at hdeny
    exact ⟨hdeny, fun o _ => o.le_deny⟩
  rename_i hdeny
  simp only [List.any_eq_true, decide_eq_true_eq, not_exists, not_and] at hdeny
  split
  · rename_i hreview
    rw [List.any_eq_true] at hreview
    simp only [decide_eq_true_eq] at hreview
    refine ⟨hreview, ?_⟩
    rintro o ⟨result, hresult, rfl⟩
    have hnot := hdeny result hresult
    cases houtcome : result.outcome with
    | allow => exact DecisionKind.allow_le _
    | deny => exact absurd houtcome hnot
    | requireReview => exact le_refl _
  · rename_i hreview
    simp only [List.any_eq_true, decide_eq_true_eq, not_exists, not_and] at hreview
    have hallow : ∀ result ∈ results, result.outcome = .allow := by
      intro result hresult
      cases houtcome : result.outcome with
      | allow => rfl
      | deny => exact absurd houtcome (hdeny result hresult)
      | requireReview => exact absurd houtcome (hreview result hresult)
    refine ⟨⟨first, hfirst, hallow first hfirst⟩, ?_⟩
    rintro o ⟨result, hresult, rfl⟩
    rw [hallow result hresult]

/-! ### What the Rules answer -/

section Combination

variable {identity : Identity} {command : Command} {context : Context}
  {historyCut registryCut : Cut}
  {rules r s : List Rule} {rule : Rule} {decision : Decision}

/-- **A Rule answers**: the Context has its declared keys, and its evaluation returns. -/
structure Rule.Answers (rule : Rule) (identity : Identity) (command : Command) (context : Context)
    (historyCut : Cut) (result : RuleResult) : Prop where
  declared : ∀ key ∈ rule.contextKeys, key ∈ context.values.keys
  evaluated : rule.evaluate identity command context historyCut = .ok result

theorem Rule.Answers.unique {result result' : RuleResult}
    (h : rule.Answers identity command context historyCut result)
    (h' : rule.Answers identity command context historyCut result') : result = result' :=
  Except.ok.inj (h.evaluated.symm.trans h'.evaluated)

/-- One Rule more is evaluated first. -/
theorem evaluateRules_cons_ok {results : List RuleResult} :
    evaluateRules identity command context historyCut (rule :: rules) = .ok results ↔
      ∃ result rest, rule.Answers identity command context historyCut result ∧
        evaluateRules identity command context historyCut rules = .ok rest ∧
        results = result :: rest := by
  have hkeys : rule.contextKeys.filter (fun key => key ∉ context.values.keys) = ∅ ↔
      ∀ key ∈ rule.contextKeys, key ∈ context.values.keys := by
    rw [Finset.filter_eq_empty_iff]
    simp only [not_not]
  rw [evaluateRules]
  split
  · rename_i hmissing
    refine ⟨fun h => (by cases h), ?_⟩
    rintro ⟨result, rest, hanswers, -⟩
    exact absurd (hkeys.mpr hanswers.declared) hmissing
  · rename_i hmissing
    have hdeclared := hkeys.mp (not_not.mp hmissing)
    split
    · rename_i e herror
      refine ⟨fun h => (by cases h), ?_⟩
      rintro ⟨result, rest, hanswers, -⟩
      rw [hanswers.evaluated] at herror
      cases herror
    · rename_i result hresult
      split
      · rename_i e herror
        refine ⟨fun h => (by cases h), ?_⟩
        rintro ⟨_, rest, -, hrest, -⟩
        rw [hrest] at herror
        cases herror
      · rename_i rest hrest
        constructor
        · intro h
          cases h
          exact ⟨result, rest, ⟨hdeclared, hresult⟩, hrest, rfl⟩
        · rintro ⟨result', rest', hanswers, hrest', rfl⟩
          rw [Rule.Answers.unique ⟨hdeclared, hresult⟩ hanswers,
            Except.ok.inj (hrest.symm.trans hrest')]

/-- **The evaluation of a list of Rules returns their answers**, when all of them answer. -/
theorem evaluateRules_ok_iff {results : List RuleResult} :
    evaluateRules identity command context historyCut rules = .ok results ↔
      List.Forall₂ (fun rule => rule.Answers identity command context historyCut) rules
        results := by
  -- The Rules are evaluated from the left, and the first that raises ends it.
  induction rules generalizing results with
  | nil =>
    rw [evaluateRules, List.forall₂_nil_left_iff]
    exact ⟨fun h => (Except.ok.inj h).symm, fun h => congrArg Except.ok h.symm⟩
  | cons rule rules ih =>
    rw [evaluateRules_cons_ok, List.forall₂_cons_left_iff]
    constructor
    · rintro ⟨result, rest, hanswers, hrest, rfl⟩
      exact ⟨result, rest, hanswers, ih.mp hrest, rfl⟩
    · rintro ⟨result, rest, hanswers, hrest, rfl⟩
      exact ⟨result, rest, hanswers, ih.mpr hrest, rfl⟩

/-- **When `authorize` returns, and what**: the Command is the Identity's own, there is a
Rule, and all Rules answer. -/
theorem authorize_ok_iff :
    authorize identity command context historyCut registryCut rules = .ok decision ↔
      identity.hash = command.identityHash ∧ rules ≠ [] ∧ ∃ results,
        List.Forall₂ (fun rule => rule.Answers identity command context historyCut) rules
          results ∧
        decision = { outcome := combine results
                     cut := historyCut
                     ruleHashes := rules.map Rule.hash
                     registryCut := registryCut
                     reason := "; ".intercalate (results.map RuleResult.reason) } := by
  simp only [← evaluateRules_ok_iff]
  rw [authorize]
  split
  · rename_i hid
    exact ⟨fun h => (by cases h), fun h => absurd h.1 hid⟩
  rename_i hid
  split
  · rename_i e herror
    refine ⟨fun h => (by cases h), ?_⟩
    rintro ⟨-, -, results, hresults, -⟩
    rw [hresults] at herror
    cases herror
  · rename_i results hresults
    -- There are as many answers as Rules, so none come back only where there are none.
    have hlength := (evaluateRules_ok_iff.mp hresults).length_eq
    have hempty : results.isEmpty = true ↔ rules = [] := by
      rw [List.isEmpty_iff, ← List.length_eq_zero_iff, ← hlength, List.length_eq_zero_iff]
    split
    · rename_i hnone
      exact ⟨fun h => (by cases h), fun h => absurd (hempty.mp hnone) h.2.1⟩
    · rename_i hsome
      constructor
      · intro h
        exact ⟨not_not.mp hid, mt hempty.mpr hsome, results, hresults, (Except.ok.inj h).symm⟩
      · rintro ⟨-, -, results', hresults', rfl⟩
        rw [Except.ok.inj (hresults.symm.trans hresults')]

/-- The outcomes that Rules of a list answer with. -/
def Outcomes (identity : Identity) (command : Command) (context : Context) (historyCut : Cut)
    (rules : List Rule) : Set DecisionKind :=
  {o | ∃ rule ∈ rules, ∃ result, rule.Answers identity command context historyCut result ∧
    result.outcome = o}

/-- **The outcome of a Decision is the greatest answer of its Rules.** -/
theorem authorize_isGreatest
    (h : authorize identity command context historyCut registryCut rules = .ok decision) :
    IsGreatest (Outcomes identity command context historyCut rules) decision.outcome := by
  obtain ⟨-, hne, results, hanswers, rfl⟩ := authorize_ok_iff.mp h
  have hresults : results ≠ [] := by
    rintro rfl
    exact hne (List.forall₂_nil_right_iff.mp hanswers)
  have hsame : Outcomes identity command context historyCut rules =
      {o | ∃ result ∈ results, result.outcome = o} := by
    ext o
    constructor
    · rintro ⟨rule, hrule, result, hresult, rfl⟩
      obtain ⟨result', hresult', hanswer'⟩ := Results.exists_of_forall₂ hanswers.flip rule hrule
      exact ⟨result', hresult', by rw [hresult.unique hanswer']⟩
    · rintro ⟨result, hresult, rfl⟩
      obtain ⟨rule, hrule, hanswer⟩ := Results.exists_of_forall₂ hanswers result hresult
      exact ⟨rule, hrule, result, hanswer, rfl⟩
  rw [hsame]
  exact combine_isGreatest hresults

/-- **When `authorize` returns**, without the answers. -/
theorem authorize_returns_iff :
    (∃ decision, authorize identity command context historyCut registryCut rules = .ok decision) ↔
      identity.hash = command.identityHash ∧ rules ≠ [] ∧
        ∀ rule ∈ rules, ∃ result, rule.Answers identity command context historyCut result := by
  constructor
  · rintro ⟨decision, h⟩
    obtain ⟨hid, hne, results, hanswers, -⟩ := authorize_ok_iff.mp h
    refine ⟨hid, hne, fun rule hrule => ?_⟩
    obtain ⟨result, -, hanswer⟩ := Results.exists_of_forall₂ hanswers.flip rule hrule
    exact ⟨result, hanswer⟩
  · rintro ⟨hid, hne, hall⟩
    obtain ⟨results, hanswers⟩ := Results.exists_forall₂_of_forall hall
    exact ⟨_, authorize_ok_iff.mpr ⟨hid, hne, results, hanswers, rfl⟩⟩

/-! ### Combination -/

/-- The outcome of an authorization, if it returns. -/
def outcomeOf (result : Except Raised Decision) : Option DecisionKind :=
  result.toOption.map Decision.outcome

theorem outcomeOf_eq_some {result : Except Raised Decision} {o : DecisionKind} :
    outcomeOf result = some o ↔ ∃ decision, result = .ok decision ∧ decision.outcome = o := by
  rcases result with e | decision
  · simp [outcomeOf, Except.toOption]
  · simp [outcomeOf, Except.toOption]

/-- **Rules allow a Command.** -/
def Allow (identity : Identity) (command : Command) (context : Context)
    (historyCut registryCut : Cut) (rules : List Rule) : Prop :=
  ∃ decision, authorize identity command context historyCut registryCut rules = .ok decision ∧
    decision.outcome = .allow

/-- Rules allow when each of them does, and there is one. -/
theorem allow_iff : Allow identity command context historyCut registryCut rules ↔
    identity.hash = command.identityHash ∧ rules ≠ [] ∧ ∀ rule ∈ rules, ∃ result,
      rule.Answers identity command context historyCut result ∧ result.outcome = .allow := by
  constructor
  · rintro ⟨decision, h, hallow⟩
    obtain ⟨hid, hne, hall⟩ := authorize_returns_iff.mp ⟨decision, h⟩
    refine ⟨hid, hne, fun rule hrule => ?_⟩
    obtain ⟨result, hanswer⟩ := hall rule hrule
    have hle := (authorize_isGreatest h).2 ⟨rule, hrule, result, hanswer, rfl⟩
    rw [hallow] at hle
    exact ⟨result, hanswer, le_antisymm hle (DecisionKind.allow_le _)⟩
  · rintro ⟨hid, hne, hall⟩
    obtain ⟨decision, h⟩ := authorize_returns_iff.mpr ⟨hid, hne, fun rule hrule =>
      (hall rule hrule).imp fun _ hresult => hresult.1⟩
    obtain ⟨rule, hrule, result, hanswer, houtcome⟩ := (authorize_isGreatest h).1
    obtain ⟨result', hanswer', hallow⟩ := hall rule hrule
    rw [hanswer.unique hanswer', hallow] at houtcome
    exact ⟨decision, h, houtcome.symm⟩

/-- When `authorize` raises. -/
theorem authorize_raises_iff :
    (∃ e, authorize identity command context historyCut registryCut rules = .error e) ↔
      identity.hash ≠ command.identityHash ∨ rules = [] ∨
        (∃ rule ∈ rules, ∃ key ∈ rule.contextKeys, key ∉ context.values.keys) ∨
        ∃ rule ∈ rules, ∃ e, rule.evaluate identity command context historyCut = .error e := by
  have hnot : (∃ e, authorize identity command context historyCut registryCut rules = .error e) ↔
      ¬∃ decision, authorize identity command context historyCut registryCut rules
        = .ok decision := by
    rcases authorize identity command context historyCut registryCut rules with e | decision
    · simp
    · simp
  rw [hnot, authorize_returns_iff]
  constructor
  · intro h
    -- Where none of the four holds, every Rule answers.
    by_contra hnone
    simp only [not_or, not_not, not_exists, not_and] at hnone
    obtain ⟨hid, hne, hkeys, herrors⟩ := hnone
    refine h ⟨hid, hne, fun rule hrule => ?_⟩
    rcases heval : rule.evaluate identity command context historyCut with e | result
    · exact absurd heval (herrors rule hrule e)
    · exact ⟨result, hkeys rule hrule, heval⟩
  · rintro hraises ⟨hid, hne, hall⟩
    rcases hraises with hid' | hnil | ⟨rule, hrule, key, hkey, hmissing⟩ | ⟨rule, hrule, e, heval⟩
    · exact hid' hid
    · exact hne hnil
    · obtain ⟨result, hanswer⟩ := hall rule hrule
      exact hmissing (hanswer.declared key hkey)
    · obtain ⟨result, hanswer⟩ := hall rule hrule
      rw [hanswer.evaluated] at heval
      cases heval

/-- **The order of the Rules does not show**, in whether they return or in the outcome. -/
theorem outcomeOf_authorize_perm (h : r.Perm s) :
    outcomeOf (authorize identity command context historyCut registryCut r)
      = outcomeOf (authorize identity command context historyCut registryCut s) := by
  have hle : ∀ {r s : List Rule} {o : DecisionKind}, r.Perm s →
      outcomeOf (authorize identity command context historyCut registryCut r) = some o →
      outcomeOf (authorize identity command context historyCut registryCut s) = some o := by
    intro r s o h ho
    obtain ⟨decision, hr, rfl⟩ := outcomeOf_eq_some.mp ho
    obtain ⟨hid, hne, hall⟩ := authorize_returns_iff.mp ⟨decision, hr⟩
    obtain ⟨decision', hs⟩ := authorize_returns_iff.mpr
      ⟨hid, fun hnil => hne (List.perm_nil.mp (hnil ▸ h)), fun rule hrule =>
        hall rule (h.mem_iff.mpr hrule)⟩
    refine outcomeOf_eq_some.mpr ⟨decision', hs, ?_⟩
    have hsame : Outcomes identity command context historyCut s =
        Outcomes identity command context historyCut r := by
      ext o
      exact exists_congr fun rule => and_congr_left fun _ => h.mem_iff.symm
    exact (authorize_isGreatest hs).unique (hsame ▸ authorize_isGreatest hr)
  exact Option.ext fun o => ⟨hle h, hle h.symm⟩

/-- **Rules that are appended only restrict.** -/
theorem authorize_append_le
    (h : authorize identity command context historyCut registryCut (r ++ s) = .ok decision)
    (hr : r ≠ []) : ∃ decision',
      authorize identity command context historyCut registryCut r = .ok decision' ∧
        decision'.outcome ≤ decision.outcome := by
  obtain ⟨hid, -, hall⟩ := authorize_returns_iff.mp ⟨decision, h⟩
  obtain ⟨decision', h'⟩ := authorize_returns_iff.mpr ⟨hid, hr, fun rule hrule =>
    hall rule (List.mem_append_left s hrule)⟩
  refine ⟨decision', h', ?_⟩
  obtain ⟨rule, hrule, hanswer⟩ := (authorize_isGreatest h').1
  exact (authorize_isGreatest h).2 ⟨rule, List.mem_append_left s hrule, hanswer⟩

/-- **Two lists of Rules allow together when both do**; an empty list has nothing to say. -/
theorem allow_append_iff : Allow identity command context historyCut registryCut (r ++ s) ↔
    r ++ s ≠ [] ∧ (r = [] ∨ Allow identity command context historyCut registryCut r) ∧
      (s = [] ∨ Allow identity command context historyCut registryCut s) := by
  rcases eq_or_ne r [] with rfl | hr
  · rcases eq_or_ne s [] with rfl | hs
    · simp [allow_iff]
    · simp [hs]
  rcases eq_or_ne s [] with rfl | hs
  · simp [hr]
  rw [allow_iff, allow_iff, allow_iff]
  simp only [List.forall_mem_append, hr, hs, false_or, ne_eq, not_false_eq_true, true_and,
    List.append_eq_nil_iff, and_self]
  exact and_and_left

/-- **`authorize` combines its Rules fail-closed, whatever their order.** It raises exactly
when the Identity is not the Command's, there is no Rule, a declared key is missing, or an
evaluation raises. Otherwise the outcome is the greatest of the Rules' outcomes, and the
Decision names their hashes in order; a permutation of the Rules has the same outcome;
appended Rules only restrict, and two lists together allow exactly when both do, an empty
one having nothing to say. -/
theorem authorize_combination (identity : Identity) (command : Command) (context : Context)
    (historyCut registryCut : Cut) (r s : List Rule) :
    ((∃ e, authorize identity command context historyCut registryCut r = .error e) ↔
      identity.hash ≠ command.identityHash ∨ r = [] ∨
        (∃ rule ∈ r, ∃ key ∈ rule.contextKeys, key ∉ context.values.keys) ∨
        ∃ rule ∈ r, ∃ e, rule.evaluate identity command context historyCut = .error e) ∧
    (∀ decision, authorize identity command context historyCut registryCut r = .ok decision →
      IsGreatest {o | ∃ rule ∈ r, ∃ reason,
        rule.evaluate identity command context historyCut = .ok ⟨o, reason⟩} decision.outcome ∧
      decision.ruleHashes = r.map Rule.hash) ∧
    (∀ r', r.Perm r' → outcomeOf (authorize identity command context historyCut registryCut r)
      = outcomeOf (authorize identity command context historyCut registryCut r')) ∧
    (∀ decision, authorize identity command context historyCut registryCut (r ++ s)
        = .ok decision →
      r = [] ∨ ∃ decision', authorize identity command context historyCut registryCut r
        = .ok decision' ∧ decision'.outcome ≤ decision.outcome) ∧
    (Allow identity command context historyCut registryCut (r ++ s) ↔
      r ++ s ≠ [] ∧ (r = [] ∨ Allow identity command context historyCut registryCut r) ∧
        (s = [] ∨ Allow identity command context historyCut registryCut s)) := by
  refine ⟨authorize_raises_iff, fun decision h => ⟨?_, (authorize_ok h).2.2.1⟩,
    fun r' => outcomeOf_authorize_perm, fun decision h => ?_, allow_append_iff⟩
  · obtain ⟨-, -, hall⟩ := authorize_returns_iff.mp ⟨decision, h⟩
    -- Every Rule has its declared keys, so an answer is an evaluation that returns.
    have hsame : {o | ∃ rule ∈ r, ∃ reason,
          rule.evaluate identity command context historyCut = .ok ⟨o, reason⟩} =
        Outcomes identity command context historyCut r := by
      ext o
      refine exists_congr fun rule => and_congr_right fun hrule => ?_
      obtain ⟨result, hanswer⟩ := hall rule hrule
      constructor
      · rintro ⟨reason, heval⟩
        exact ⟨⟨o, reason⟩, ⟨hanswer.declared, heval⟩, rfl⟩
      · rintro ⟨result', hanswer', rfl⟩
        exact ⟨result'.reason, hanswer'.evaluated⟩
    rw [hsame]
    exact authorize_isGreatest h
  · rcases eq_or_ne r [] with hnil | hne
    · exact Or.inl hnil
    · exact Or.inr (authorize_append_le h hne)

/-- A Rule that allows everything. -/
def Sample.permissive : Rule where
  hash := "a110"
  contextKeys := ∅
  evaluate _ _ _ _ := .ok ⟨.allow, "anything goes"⟩

/-- **An empty part does not allow**, and takes nothing from the other one. -/
theorem Sample.empty_part_does_not_allow : ¬(Allow ⟨"1d", "agent", []⟩
      ⟨"CreateThing", "1d", "da7a", [], "n-1", []⟩ ⟨Dict.empty, Dict.empty, fun _ => Iff.rfl⟩ ∅ ∅
      ([permissive] ++ []) ↔
    Allow ⟨"1d", "agent", []⟩ ⟨"CreateThing", "1d", "da7a", [], "n-1", []⟩
        ⟨Dict.empty, Dict.empty, fun _ => Iff.rfl⟩ ∅ ∅ [permissive] ∧
      Allow ⟨"1d", "agent", []⟩ ⟨"CreateThing", "1d", "da7a", [], "n-1", []⟩
        ⟨Dict.empty, Dict.empty, fun _ => Iff.rfl⟩ ∅ ∅ []) := by
  intro hparts
  have hallow : Allow ⟨"1d", "agent", []⟩ ⟨"CreateThing", "1d", "da7a", [], "n-1", []⟩
      ⟨Dict.empty, Dict.empty, fun _ => Iff.rfl⟩ ∅ ∅ ([permissive] ++ []) := ⟨_, rfl, rfl⟩
  exact (allow_iff.mp (hparts.mp hallow).2).2.1 rfl

end Combination

/-! ### What a Rule may look at -/

section Declared

variable {identity : Identity} {command : Command} {historyCut registryCut : Cut}
  {rules : List Rule} {rule : Rule} {X Y : Context}

/-- **Two Contexts agree on what Rules declare**: both have every declared key, with one
value and one type. -/
def AgreeOn (rules : List Rule) (X Y : Context) : Prop :=
  ∀ rule ∈ rules, ∀ key ∈ rule.contextKeys, key ∈ X.values.keys ∧ key ∈ Y.values.keys ∧
    X.values.get? key = Y.values.get? key ∧ X.types.get? key = Y.types.get? key

theorem AgreeOn.symm (h : AgreeOn rules X Y) : AgreeOn rules Y X := by
  intro rule hrule key hkey
  obtain ⟨hX, hY, hvalue, htype⟩ := h rule hrule key hkey
  exact ⟨hY, hX, hvalue.symm, htype.symm⟩

/-- The outcome of one evaluation, if it returns. -/
def Rule.outcome (rule : Rule) (identity : Identity) (command : Command) (context : Context)
    (historyCut : Cut) : Option DecisionKind :=
  (rule.evaluate identity command context historyCut).toOption.map RuleResult.outcome

theorem Rule.outcome_eq_some {context : Context} {o : DecisionKind} :
    rule.outcome identity command context historyCut = some o ↔
      ∃ result, rule.evaluate identity command context historyCut = .ok result ∧
        result.outcome = o := by
  rw [Rule.outcome]
  rcases rule.evaluate identity command context historyCut with e | result
  · simp [Except.toOption]
  · simp [Except.toOption]

/-- **A Rule reads only what it declares**: its outcome is the same in Contexts that agree
on its declared keys. -/
def Rule.ReadsDeclared (rule : Rule) (identity : Identity) (command : Command)
    (historyCut : Cut) : Prop :=
  ∀ X Y, AgreeOn [rule] X Y →
    rule.outcome identity command X historyCut = rule.outcome identity command Y historyCut

/-- **Rules are judged on the Context they declare**: `authorize` has the same outcome in
Contexts that agree on their declared keys. -/
def JudgedOnDeclared (identity : Identity) (command : Command) (historyCut registryCut : Cut)
    (rules : List Rule) : Prop :=
  ∀ X Y, AgreeOn rules X Y → outcomeOf (authorize identity command X historyCut registryCut rules)
    = outcomeOf (authorize identity command Y historyCut registryCut rules)

/-- The answers of Rules that read only what they declare, in two Contexts. -/
theorem outcomes_subset (hreads : ∀ rule ∈ rules, rule.ReadsDeclared identity command historyCut)
    (hXY : AgreeOn rules X Y) :
    Outcomes identity command X historyCut rules ⊆
      Outcomes identity command Y historyCut rules := by
  rintro o ⟨rule, hrule, result, hanswer, rfl⟩
  have hsame := hreads rule hrule X Y fun rule' hrule' =>
    hXY rule' (List.mem_singleton.mp hrule' ▸ hrule)
  obtain ⟨result', heval, houtcome⟩ := Rule.outcome_eq_some.mp
    (hsame.symm.trans (Rule.outcome_eq_some.mpr ⟨result, hanswer.evaluated, rfl⟩))
  exact ⟨rule, hrule, result', ⟨fun key hkey => (hXY rule hrule key hkey).2.1, heval⟩, houtcome⟩

/-- **Rules that read only what they declare are judged on it.** -/
theorem judgedOnDeclared_of_readsDeclared
    (hreads : ∀ rule ∈ rules, rule.ReadsDeclared identity command historyCut) :
    JudgedOnDeclared identity command historyCut registryCut rules := by
  have hle : ∀ {X Y : Context} {o : DecisionKind}, AgreeOn rules X Y →
      outcomeOf (authorize identity command X historyCut registryCut rules) = some o →
      outcomeOf (authorize identity command Y historyCut registryCut rules) = some o := by
    intro X Y o hXY ho
    obtain ⟨decision, hX, rfl⟩ := outcomeOf_eq_some.mp ho
    obtain ⟨hid, hne, hall⟩ := authorize_returns_iff.mp ⟨decision, hX⟩
    have hanswers : ∀ rule ∈ rules, ∃ result,
        rule.Answers identity command Y historyCut result := by
      intro rule hrule
      obtain ⟨result, hanswer⟩ := hall rule hrule
      -- Alone, the Rule answers in either Context.
      have hsubset : Outcomes identity command X historyCut [rule] ⊆
          Outcomes identity command Y historyCut [rule] :=
        outcomes_subset (fun rule' hrule' => hreads rule' (List.mem_singleton.mp hrule' ▸ hrule))
          fun rule' hrule' => hXY rule' (List.mem_singleton.mp hrule' ▸ hrule)
      obtain ⟨rule', hrule', result', hanswer', -⟩ :=
        hsubset ⟨rule, List.mem_singleton_self rule, result, hanswer, rfl⟩
      exact ⟨result', List.mem_singleton.mp hrule' ▸ hanswer'⟩
    obtain ⟨decision', hY⟩ := authorize_returns_iff.mpr ⟨hid, hne, hanswers⟩
    have hsame : Outcomes identity command Y historyCut rules =
        Outcomes identity command X historyCut rules :=
      (outcomes_subset hreads hXY.symm).antisymm (outcomes_subset hreads hXY)
    refine outcomeOf_eq_some.mpr ⟨decision', hY, ?_⟩
    exact (authorize_isGreatest hY).unique (hsame ▸ authorize_isGreatest hX)
  exact fun X Y hXY => Option.ext fun o => ⟨hle hXY, hle hXY.symm⟩

/-- One Rule alone decides with its own outcome. -/
theorem outcomeOf_authorize_singleton (hid : identity.hash = command.identityHash)
    (hkeys : ∀ key ∈ rule.contextKeys, key ∈ X.values.keys) :
    outcomeOf (authorize identity command X historyCut registryCut [rule])
      = rule.outcome identity command X historyCut := by
  refine Option.ext fun o => ?_
  rw [outcomeOf_eq_some, Rule.outcome_eq_some]
  constructor
  · rintro ⟨decision, h, rfl⟩
    obtain ⟨rule', hrule', result, hanswer, houtcome⟩ := (authorize_isGreatest h).1
    rw [List.mem_singleton.mp hrule'] at hanswer
    exact ⟨result, hanswer.evaluated, houtcome⟩
  · rintro ⟨result, heval, rfl⟩
    have hanswer : rule.Answers identity command X historyCut result := ⟨hkeys, heval⟩
    obtain ⟨decision, h⟩ := authorize_returns_iff.mpr ⟨hid, List.cons_ne_nil rule [],
      fun rule' hrule' => ⟨result, List.mem_singleton.mp hrule' ▸ hanswer⟩⟩
    obtain ⟨rule', hrule', result', hanswer', houtcome⟩ := (authorize_isGreatest h).1
    rw [List.mem_singleton.mp hrule'] at hanswer'
    rw [hanswer'.unique hanswer] at houtcome
    exact ⟨decision, h, houtcome.symm⟩

/-- **Whether Rules are judged on what they declare is up to the Rules.** They are where
each of them reads only what it declares; and a Rule by itself is so judged exactly when it
does. -/
theorem judgedOnDeclared_iff (identity : Identity) (command : Command)
    (historyCut registryCut : Cut) (rules : List Rule) :
    ((∀ rule ∈ rules, rule.ReadsDeclared identity command historyCut) →
      JudgedOnDeclared identity command historyCut registryCut rules) ∧
    (identity.hash = command.identityHash → ∀ rule : Rule,
      (JudgedOnDeclared identity command historyCut registryCut [rule] ↔
        rule.ReadsDeclared identity command historyCut)) := by
  refine ⟨judgedOnDeclared_of_readsDeclared, fun hid rule => ⟨fun h X Y hXY => ?_, fun h => ?_⟩⟩
  · have hkeys := hXY rule (List.mem_singleton_self rule)
    rw [← outcomeOf_authorize_singleton hid fun key hkey => (hkeys key hkey).1,
      ← outcomeOf_authorize_singleton hid fun key hkey => (hkeys key hkey).2.1]
    exact h X Y hXY
  · refine judgedOnDeclared_of_readsDeclared fun rule' hrule' => ?_
    rw [List.mem_singleton.mp hrule']
    exact h

end Declared

namespace Sample

/-- A Rule that declares nothing, and looks whether the Context has an origin. -/
def curious : Rule where
  hash := "c0de"
  contextKeys := ∅
  evaluate _ _ context _ :=
    if "request.origin" ∈ context.values.keys then .ok ⟨.deny, "an origin is given"⟩
    else .ok ⟨.allow, "no origin is given"⟩

/-- A Context with an origin. -/
def originContext : Context where
  values := Dict.empty.set "request.origin" (.str "test")
  types := Dict.empty.set "request.origin" "text"
  keys_eq _ := Iff.rfl

/-- **A key no Rule declares decides.** -/
theorem undeclared_key_decides : ¬JudgedOnDeclared ⟨"1d", "agent", []⟩
    ⟨"CreateThing", "1d", "da7a", [], "n-1", []⟩ ∅ ∅ [curious] := by
  intro hjudged
  have hsame := hjudged ⟨Dict.empty, Dict.empty, fun _ => Iff.rfl⟩ originContext (by
    rintro rule hrule key hkey
    rw [List.mem_singleton.mp hrule] at hkey
    exact absurd hkey (Finset.notMem_empty key))
  exact absurd hsame (by decide)

end Sample

end PowerfarmKernel
