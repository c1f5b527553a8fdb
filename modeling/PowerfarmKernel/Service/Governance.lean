import PowerfarmKernel.Kernel.Authorization
import PowerfarmKernel.Service.RulesInForce

/-!
# Rules that govern

A configured resolver goes through the names it is configured with and stops at the first it
has no Rule for; what it returns is therefore complete. Each name gets the version in force
at the registry cut, under the implementation the configuration has for it
(`PowerfarmKernel.ConfiguredRuleResolver.Implements`), and authorization has one answer to
combine for each of them. `PowerfarmKernel.AuthorityService.allowed_by_all` says what an
outcome of `allow` then means: there is a configured name, and the Rule of each of them
allowed.
-/

namespace PowerfarmKernel

open Prog LedgerM

namespace ConfiguredRuleResolver

/-- **What a configured resolver returns governs.** -/
theorem governs_of_resolve {rootIdentityHash : Option Hash} {ruleNames : List String}
    {staticRules : Dict String Rule} {s t : MemoryLedger} {command : Command} {context : Context}
    {historyCut registryCut : Cut} {rules : List Rule}
    {known : MemoryLedger → String → String → Cut → Bool}
    (hrun : ((resolve rootIdentityHash ruleNames staticRules).resolve command context historyCut
      registryCut).run (MemoryLedger.handle known) s = (.ok rules, t)) :
    Governs s rootIdentityHash ruleNames staticRules registryCut rules := by
  rw [run_resolve, Prod.mk.injEq] at hrun
  exact governs_of_rulesOf hrun.1

end ConfiguredRuleResolver

namespace AuthorityService

open ConfiguredRuleResolver

/-- **A Decision of `allow` is the configured Rules' own.** What a configured resolver
returns is one Rule for each configured name, in order, of the version in force at the
registry cut. When an evaluation comes out with `allow`, names are configured, and the Rule
of each of them allowed the very Identity, Command, Context and cut that were evaluated. -/
theorem allowed_by_all (P : Primitives) (rootIdentityHash : Option Hash) (ruleNames : List String)
    (staticRules : Dict String Rule) (allowSignedWithoutOauth : Bool)
    (known : MemoryLedger → String → String → Cut → Bool) (s : MemoryLedger) :
    (∀ command context historyCut registryCut rules t,
        ((resolve rootIdentityHash ruleNames staticRules).resolve command context historyCut
          registryCut).run (MemoryLedger.handle known) s = (.ok rules, t) →
        Governs s rootIdentityHash ruleNames staticRules registryCut rules) ∧
      ∀ request principal E t,
        (evaluate P ⟨resolve rootIdentityHash ruleNames staticRules, allowSignedWithoutOauth⟩
          request principal).run (MemoryLedger.handle known) s = (.ok E, t) →
        E.decision.outcome = .allow →
        ruleNames ≠ [] ∧ ∃ rules,
          Governs s rootIdentityHash ruleNames staticRules E.decision.registryCut rules ∧
          E.decision.ruleHashes = rules.map Rule.hash ∧
          ∀ rule ∈ rules, ∃ result,
            rule.evaluate E.identity E.command E.context E.decision.cut = .ok result ∧
            result.outcome = .allow := by
  refine ⟨fun _ _ _ _ _ _ hrun => governs_of_resolve hrun, ?_⟩
  intro request principal E t hrun hallow
  obtain ⟨rules, hresolve, -, hdecision⟩ := (evaluate_ok hrun).2.rules
  have hgoverns := governs_of_resolve hresolve
  obtain ⟨-, hne, hall⟩ := allow_iff.mp ⟨E.decision, hdecision, hallow⟩
  refine ⟨?_, rules, hgoverns, (authorize_ok hdecision).2.2.1, ?_⟩
  · rintro rfl
    exact hne (List.forall₂_nil_left_iff.mp hgoverns)
  · intro rule hrule
    obtain ⟨result, hanswers, houtcome⟩ := hall rule hrule
    exact ⟨result, hanswers.evaluated, houtcome⟩

end AuthorityService

end PowerfarmKernel
