import PowerfarmKernel.Kernel.Types

/-!
# Rules and their combination

A Rule is any object with a hash, the Context keys it declares and an evaluation,
which may raise (`kernel/rules.py`). `PowerfarmKernel.authorize` evaluates the Rules
it is given in order and combines their outcomes fail-closed: one `deny` denies, else
one `require_review` asks for review, else the outcome is `allow`; without a Rule, or
with a declared key missing, it raises.
-/

namespace PowerfarmKernel

/-- What one Rule answers. -/
structure RuleResult where
  outcome : DecisionKind
  reason : String

/-- **A Rule**, as the protocol class states it: pure in the values it is shown. -/
structure Rule where
  hash : Hash
  contextKeys : Cut
  evaluate : Identity → Command → Context → Cut → Except Raised RuleResult

/-- A list of names as Python prints it. -/
def printList (names : List String) : String :=
  "[" ++ ", ".intercalate (names.map fun name => "'" ++ name ++ "'") ++ "]"

/-- Evaluate the Rules in order, each after its declared Context keys were found. -/
def evaluateRules (identity : Identity) (command : Command) (context : Context)
    (historyCut : Cut) : List Rule → Except Raised (List RuleResult)
  | [] => .ok []
  | rule :: rules =>
      let missing := rule.contextKeys.filter fun key => key ∉ context.values.keys
      if missing ≠ ∅ then
        .error ⟨.ruleError, "rule " ++ rule.hash ++ " requires missing context keys: "
          ++ printList (sorted missing)⟩
      else
        match rule.evaluate identity command context historyCut with
        | .error e => .error e
        | .ok result =>
            match evaluateRules identity command context historyCut rules with
            | .error e => .error e
            | .ok results => .ok (result :: results)

/-- The combined outcome: deny over review over allow. -/
def combine (results : List RuleResult) : DecisionKind :=
  if results.any fun item => item.outcome = .deny then .deny
  else if results.any fun item => item.outcome = .requireReview then .requireReview
  else .allow

/-- **Authorize a Command** under a tuple of Rules, at a history cut and a registry
cut. -/
def authorize (identity : Identity) (command : Command) (context : Context)
    (historyCut registryCut : Cut) (rules : List Rule) : Except Raised Decision :=
  if identity.hash ≠ command.identityHash then
    .error ⟨.ruleError, "command identity does not match authenticated identity"⟩
  else
    match evaluateRules identity command context historyCut rules with
    | .error e => .error e
    | .ok outcomes =>
        if outcomes.isEmpty then
          .error ⟨.ruleError, "no applicable rules; authorization fails closed"⟩
        else
          .ok { outcome := combine outcomes
                cut := historyCut
                ruleHashes := rules.map Rule.hash
                registryCut := registryCut
                reason := "; ".intercalate (outcomes.map RuleResult.reason) }

/-- **A Decision carries the cuts it was asked at**, and the hashes of exactly the
Rules given, in order. -/
theorem authorize_ok {identity : Identity} {command : Command} {context : Context}
    {historyCut registryCut : Cut} {rules : List Rule} {decision : Decision}
    (h : authorize identity command context historyCut registryCut rules = .ok decision) :
    decision.cut = historyCut ∧ decision.registryCut = registryCut ∧
      decision.ruleHashes = rules.map Rule.hash ∧ identity.hash = command.identityHash := by
  rw [authorize] at h
  split at h
  · cases h
  · rename_i hid
    split at h
    · cases h
    · split at h
      · cases h
      · cases h
        exact ⟨rfl, rfl, rfl, not_not.mp hid⟩

/-- **A Decision is what its Rules answered**: each was evaluated on the very Identity,
Command, Context and cut, and the outcome is their combination. -/
theorem authorize_results {identity : Identity} {command : Command} {context : Context}
    {historyCut registryCut : Cut} {rules : List Rule} {decision : Decision}
    (h : authorize identity command context historyCut registryCut rules = .ok decision) :
    ∃ results, evaluateRules identity command context historyCut rules = .ok results ∧
      decision.outcome = combine results := by
  rw [authorize] at h
  split at h
  · cases h
  · split at h
    · cases h
    · rename_i results hresults
      split at h
      · cases h
      · cases h
        exact ⟨results, hresults, rfl⟩

end PowerfarmKernel
