import Mathlib.Data.List.DropRight
import PowerfarmKernel.Kernel.Authorization
import PowerfarmKernel.Service.RulesInForce

/-!
# A Kernel composed from its environment

`build_runtime_from_env` of `service/runtime.py` puts the services of one process together
from the environment it runs in: where the ledger is, which Rules are configured, and which
Identity is the root. A runtime has no Rules of its own beside the built-in one
(`PowerfarmKernel.buildRuntimeFromEnv`), so what it is configured with decides little: a
configured name other than that of the built-in Rule admits nothing at all, and otherwise
an evaluation comes out with `allow` for the root Identity and with `deny` for everybody
else (`PowerfarmKernel.outcome_of_runtime`). It never asks for a review.
-/

namespace PowerfarmKernel

open Prog LedgerM

/-! ### The environment -/

/-- `os.environ`. -/
abbrev Environment := String → Option String

/-- The characters `str.strip` removes. -/
def isSpace (c : Char) : Bool :=
  (9 ≤ c.toNat ∧ c.toNat ≤ 13) ∨ (28 ≤ c.toNat ∧ c.toNat ≤ 32) ∨ c.toNat = 0x85 ∨
    c.toNat = 0xA0 ∨ c.toNat = 0x1680 ∨ (0x2000 ≤ c.toNat ∧ c.toNat ≤ 0x200A) ∨
    c.toNat = 0x2028 ∨ c.toNat = 0x2029 ∨ c.toNat = 0x202F ∨ c.toNat = 0x205F ∨
    c.toNat = 0x3000

/-- `str.strip`. -/
def strip (chars : List Char) : List Char := (chars.dropWhile isSpace).rdropWhile isSpace

/-- The items of a list whose items are separated by commas: blanks around an item do not
belong to it, and empty items are dropped. -/
def separated (value : String) : List String :=
  (((value.toList.splitOn ',').map strip).filter (· ≠ [])).map String.ofList

example : separated " genesis.root_authority , ,x" = ["genesis.root_authority", "x"] := by
  decide

/-! ### The runtime -/

/-- **The services of one process**: where the database is, if there is one – else the
ledger is in memory –, and the authority service that all doors lead to. -/
structure KernelRuntime where
  databaseUrl : Option String
  authority : AuthorityService

/-- The names of the configured Rules. -/
def ruleNamesOf (env : Environment) : List String :=
  separated ((env "POWERFARM_RULES").getD ConfiguredRuleResolver.rootAuthorityName)

/-- **`build_runtime_from_env`.** -/
def buildRuntimeFromEnv (env : Environment) (authRequired : Bool) : KernelRuntime where
  databaseUrl := (env "DATABASE_URL").filter (· ≠ "")
  authority :=
    { rules := ConfiguredRuleResolver.resolve (env "POWERFARM_ROOT_IDENTITY_HASH")
        (ruleNamesOf env) Dict.empty
      allowSignedWithoutOauth := !authRequired }

namespace ConfiguredRuleResolver

variable {rootIdentityHash : Option Hash} {ruleNames : List String} {root : Hash}
  {entries : Dict String RegistryEntry} {rules : List Rule} {identity : Identity}
  {command : Command} {context : Context} {historyCut registryCut : Cut} {decision : Decision}

/-- Without Rules of its own a resolver knows one name, and needs the root for it. -/
theorem mapM_resolveName_builtIn (hsome : rules ≠ [])
    (h : ruleNames.mapM (resolveName rootIdentityHash Dict.empty entries) = .ok rules) :
    (∀ name ∈ ruleNames, name = rootAuthorityName) ∧ ∃ root, rootIdentityHash = some root ∧
      ∀ rule ∈ rules, ∃ hash, rule = rootAuthorityRule hash root := by
  have heach := Results.mapM_ok_iff.mp h
  have hbuiltIn : ∀ name rule, resolveName rootIdentityHash Dict.empty entries name = .ok rule →
      name = rootAuthorityName ∧ ∃ root, rootIdentityHash = some root ∧
        ∃ hash, rule = rootAuthorityRule hash root := by
    intro name rule hrule
    obtain ⟨hname, e, root, -, hroot, hrule⟩ := (resolveName_of_builtIn rfl).mp hrule
    exact ⟨hname, root, hroot, e.hash, hrule⟩
  obtain ⟨rule, hrule⟩ := List.exists_mem_of_ne_nil rules hsome
  obtain ⟨name, -, hresolved⟩ := Results.exists_of_forall₂ heach rule hrule
  obtain ⟨-, root, hroot, -⟩ := hbuiltIn name rule hresolved
  refine ⟨fun name hname => ?_, root, hroot, fun rule hrule => ?_⟩
  · obtain ⟨rule, -, hresolved⟩ := Results.exists_of_forall₂ heach.flip name hname
    exact (hbuiltIn name rule hresolved).1
  · obtain ⟨name, -, hresolved⟩ := Results.exists_of_forall₂ heach rule hrule
    obtain ⟨-, root', hroot', hash, hbuilt⟩ := hbuiltIn name rule hresolved
    rw [hroot, Option.some.injEq] at hroot'
    rw [hroot']
    exact ⟨hash, hbuilt⟩

/-- **The built-in Rule alone**, however often it is configured: `allow` for the root, and
`deny` for everybody else. -/
theorem outcome_of_rootAuthority
    (hrules : ∀ rule ∈ rules, ∃ hash, rule = rootAuthorityRule hash root)
    (hdecision : authorize identity command context historyCut registryCut rules = .ok decision) :
    decision.outcome = if identity.hash = root then .allow else .deny := by
  obtain ⟨⟨rule, hrule, result, hanswers, houtcome⟩, -⟩ := authorize_isGreatest hdecision
  obtain ⟨hash, rfl⟩ := hrules rule hrule
  have hevaluated := hanswers.evaluated
  dsimp only [rootAuthorityRule] at hevaluated
  rw [← houtcome]
  split at hevaluated
  · rename_i hroot
    cases hevaluated
    rw [if_pos hroot]
  · rename_i hroot
    cases hevaluated
    rw [if_neg hroot]

end ConfiguredRuleResolver

/-- **What a runtime decides.** When its resolver returns Rules, each configured name is
that of the built-in Rule and the root is configured; and a Decision they take is `allow` for
the root Identity and `deny` for any other. -/
theorem outcome_of_runtime {σ : Type} {h : Handler LedgerOp.Ret Raised σ} {s t : σ}
    {env : Environment} {authRequired : Bool} {rules : List Rule} {identity : Identity}
    {command : Command} {context : Context} {historyCut registryCut : Cut} {decision : Decision}
    (hresolve : ((buildRuntimeFromEnv env authRequired).authority.rules.resolve command context
      historyCut registryCut).run h s = (.ok rules, t)) (hsome : rules ≠ [])
    (hdecision : authorize identity command context historyCut registryCut rules = .ok decision) :
    (∀ name ∈ ruleNamesOf env, name = ConfiguredRuleResolver.rootAuthorityName) ∧
      ∃ root, env "POWERFARM_ROOT_IDENTITY_HASH" = some root ∧
        decision.outcome = if identity.hash = root then .allow else .deny := by
  obtain ⟨entries, u, -, hrest⟩ := run_bind_ok.mp hresolve
  obtain ⟨hnames, root, hroot, hbuiltIn⟩ := ConfiguredRuleResolver.mapM_resolveName_builtIn hsome
    (run_ofExcept_ok.mp hrest).1
  exact ⟨hnames, root, hroot, ConfiguredRuleResolver.outcome_of_rootAuthority hbuiltIn hdecision⟩

end PowerfarmKernel
