import PowerfarmKernel.Service.Soundness

/-!
# Which version of a Rule decides

A Rule is registered under its name in several versions, each born at an Act, and a request
declares two cuts: the history it was decided on, and the registry it is judged by. The
first must be the current one at the commit; the second need only be closed and contained
in the first.

`PowerfarmKernel.MemoryLedger.InForce` says which version is in force at a cut: the highest
one born in it. `PowerfarmKernel.AuthorityService.rules_in_force` says that an Act records,
for each configured name, the version in force at its *registry* cut, which is its decision
cut unless the request declares another; and that this is the version in force at the
decision cut just when no higher one was born between the two.
`PowerfarmKernel.AuthorityService.superseded_rule_decides` is an Act judged by a superseded
version.
-/

namespace PowerfarmKernel

open Prog LedgerM

/-! ### The version in force -/

namespace MemoryLedger

/-- **A version of a Rule**: an entry of the registry under its name, born in the cut. -/
structure RuleVersion (s : MemoryLedger) (name : String) (cut : Cut) (e : RegistryEntry) :
    Prop where
  entry : e ∈ s.registryMetadata.values
  kind : e.kind = "rule"
  name : e.name = name
  bornAt : e.bornAt ∈ cut

/-- **The version in force** at a cut: the highest one born in it. -/
structure InForce (s : MemoryLedger) (name : String) (cut : Cut) (e : RegistryEntry) :
    Prop where
  version : s.RuleVersion name cut e
  highest : ∀ e', s.RuleVersion name cut e' → e'.version ≤ e.version

variable {s t : MemoryLedger} {name : String} {cut cut' : Cut} {e : RegistryEntry}

/-- A version in force at a cut is in force at a larger one, unless the larger one adds a
higher version. -/
theorem InForce.iff_of_subset (h : s.InForce name cut e) (hcut : cut ⊆ cut') :
    s.InForce name cut' e ↔
      ∀ e', s.RuleVersion name cut' e' → e'.bornAt ∉ cut → e'.version ≤ e.version := by
  constructor
  · exact fun h' e' he' _ => h'.highest e' he'
  · intro h'
    refine ⟨⟨h.version.entry, h.version.kind, h.version.name, hcut h.version.bornAt⟩, ?_⟩
    intro e' he'
    by_cases hborn : e'.bornAt ∈ cut
    · exact h.highest e' ⟨he'.entry, he'.kind, he'.name, hborn⟩
    · exact h' e' he' hborn

/-! ### Reading it off the registry -/

/-- The order of the registry, spelt out. -/
theorem entryLe_iff {a b : RegistryEntry} : entryLe a b = true ↔
    a.kind < b.kind ∨ a.kind = b.kind ∧
      (a.name < b.name ∨ a.name = b.name ∧ a.version ≤ b.version) := by
  rw [entryLe]
  by_cases hkind : a.kind = b.kind
  · by_cases hname : a.name = b.name
    · simp [hkind, hname]
    · simp [hkind, hname]
  · simp [hkind]

instance : Std.Total fun a b : RegistryEntry => entryLe a b = true where
  total a b := by
    simp only [entryLe_iff]
    rcases lt_trichotomy a.kind b.kind with hkind | hkind | hkind
    · exact Or.inl (Or.inl hkind)
    · rcases lt_trichotomy a.name b.name with hname | hname | hname
      · exact Or.inl (Or.inr ⟨hkind, Or.inl hname⟩)
      · rcases le_total a.version b.version with hversion | hversion
        · exact Or.inl (Or.inr ⟨hkind, Or.inr ⟨hname, hversion⟩⟩)
        · exact Or.inr (Or.inr ⟨hkind.symm, Or.inr ⟨hname.symm, hversion⟩⟩)
      · exact Or.inr (Or.inr ⟨hkind.symm, Or.inl hname⟩)
    · exact Or.inr (Or.inl hkind)

instance : IsTrans RegistryEntry fun a b => entryLe a b = true where
  trans a b c hab hbc := by
    rw [entryLe_iff] at hab hbc ⊢
    rcases hab with hab | ⟨hab, hab'⟩
    · rcases hbc with hbc | ⟨hbc, -⟩
      · exact Or.inl (hab.trans hbc)
      · exact Or.inl (hbc ▸ hab)
    · rcases hbc with hbc | ⟨hbc, hbc'⟩
      · exact Or.inl (hab ▸ hbc)
      · refine Or.inr ⟨hab.trans hbc, ?_⟩
        rcases hab' with hab' | ⟨hab', hle⟩
        · rcases hbc' with hbc' | ⟨hbc', -⟩
          · exact Or.inl (hab'.trans hbc')
          · exact Or.inl (hbc' ▸ hab')
        · rcases hbc' with hbc' | ⟨hbc', hle'⟩
          · exact Or.inl (hab' ▸ hbc')
          · exact Or.inr ⟨hab'.trans hbc', hle.trans hle'⟩

/-- The entries a resolver reads are the versions of all Rules. -/
theorem mem_registryEntries_rule :
    e ∈ s.registryEntries (some "rule") cut ↔ s.RuleVersion e.name cut e := by
  rw [registryEntries, List.mem_insertionSort, List.mem_filter, decide_eq_true_eq]
  constructor
  · rintro ⟨hentry, hborn, hkind⟩
    refine ⟨hentry, ?_, rfl, hborn⟩
    rcases hkind with hkind | hkind
    · cases hkind
    · exact (Option.some.inj hkind).symm
  · exact fun h => ⟨h.entry, h.bornAt, Or.inr (congrArg some h.kind.symm)⟩

/-- **The table a resolver builds holds the versions in force**: later entries of a name
replace earlier ones, and the entries come in the order of their versions. -/
theorem inForce_of_get? (h : (Dict.empty.merge ((s.registryEntries (some "rule") cut).map
    fun entry => (entry.name, entry))).get? name = some e) : s.InForce name cut e := by
  have hsorted : (s.registryEntries (some "rule") cut).Pairwise fun a b => entryLe a b = true :=
    List.pairwise_insertionSort _ _
  obtain ⟨hmem, rfl, hlast⟩ := Dict.get?_merge_pairwise hsorted h
  have hversion := mem_registryEntries_rule.mp hmem
  refine ⟨hversion, fun e' he' => ?_⟩
  have hmem' : e' ∈ s.registryEntries (some "rule") cut :=
    mem_registryEntries_rule.mpr (he'.name ▸ he')
  rcases hlast e' hmem' he'.name with rfl | hle
  · exact le_refl _
  · -- Same kind and same name: the order is that of the versions.
    rcases entryLe_iff.mp hle with hlt | ⟨-, hlt | ⟨-, hle⟩⟩
    · exact absurd hlt (by rw [he'.kind, hversion.kind]; exact lt_irrefl _)
    · exact absurd hlt (by rw [he'.name]; exact lt_irrefl _)
    · exact hle

end MemoryLedger

/-! ### What a resolver picks -/

namespace ConfiguredRuleResolver

variable {rootIdentityHash : Option Hash} {ruleNames : List String}
  {staticRules : Dict String Rule} {entries : Dict String RegistryEntry} {name : String}
  {rule : Rule}

/-- **A Rule implements an entry of the registry** under a name: it has the hash of the
entry, and it is the implementation configured for the name, or the built-in Rule of the
root Identity where the name is that Rule's and nothing else is configured. -/
def Implements (rootIdentityHash : Option Hash) (staticRules : Dict String Rule) (name : String)
    (e : RegistryEntry) (rule : Rule) : Prop :=
  e.hash = rule.hash ∧
    (staticRules.get? name = some rule ∨
      staticRules.get? name = none ∧ name = rootAuthorityName ∧
        ∃ root, rootIdentityHash = some root ∧ rule = rootAuthorityRule e.hash root)

/-- A name with a configured Rule gets that one, if the registry has its hash. -/
theorem resolveName_of_configured {configured : Rule}
    (hconfigured : staticRules.get? name = some configured) :
    resolveName rootIdentityHash staticRules entries name = .ok rule ↔
      rule = configured ∧ ∃ e, entries.get? name = some e ∧ e.hash = configured.hash := by
  rw [resolveName, hconfigured]
  rcases entries.get? name with _ | entry
  · simp
  · by_cases hsame : configured.hash = entry.hash
    · simp [hsame, eq_comm]
    · simp [hsame, Ne.symm hsame]

/-- A name without one gets the built-in Rule, if it is that Rule's. -/
theorem resolveName_of_builtIn (hnone : staticRules.get? name = none) :
    resolveName rootIdentityHash staticRules entries name = .ok rule ↔
      name = rootAuthorityName ∧ ∃ e root, entries.get? name = some e ∧
        rootIdentityHash = some root ∧ rule = rootAuthorityRule e.hash root := by
  rw [resolveName, hnone]
  rcases hentry : entries.get? name with _ | entry
  · simp
  · by_cases hname : name = rootAuthorityName
    · rcases rootIdentityHash with _ | root
      · simp [hname]
      · simp [hname, eq_comm]
    · simp [hname]

/-- **When a name gets a Rule, and which**: the registry has an entry under it, and the Rule
implements the entry. -/
theorem resolveName_ok_iff :
    resolveName rootIdentityHash staticRules entries name = .ok rule ↔
      ∃ e, entries.get? name = some e ∧ Implements rootIdentityHash staticRules name e rule := by
  rcases hstatic : staticRules.get? name with _ | configured
  · rw [resolveName_of_builtIn hstatic]
    constructor
    · rintro ⟨hname, e, root, he, hroot, rfl⟩
      exact ⟨e, he, rfl, Or.inr ⟨hstatic, hname, root, hroot, rfl⟩⟩
    · rintro ⟨e, he, -, hconfigured | ⟨-, hname, root, hroot, hrule⟩⟩
      · rw [hstatic] at hconfigured
        cases hconfigured
      · exact ⟨hname, e, root, he, hroot, hrule⟩
  · rw [resolveName_of_configured hstatic]
    constructor
    · rintro ⟨rfl, e, he, hhash⟩
      exact ⟨e, he, hhash, Or.inl hstatic⟩
    · rintro ⟨e, he, hhash, hconfigured | ⟨hnone, -⟩⟩
      · rw [hstatic] at hconfigured
        cases hconfigured
        exact ⟨rfl, e, he, hhash⟩
      · rw [hstatic] at hnone
        cases hnone

/-- **The Rules of a configuration at a cut**: one for each configured name, in order, each
implementing the version in force. -/
def Governs (s : MemoryLedger) (rootIdentityHash : Option Hash) (ruleNames : List String)
    (staticRules : Dict String Rule) (cut : Cut) (rules : List Rule) : Prop :=
  List.Forall₂ (fun name rule => ∃ e, s.InForce name cut e ∧
    Implements rootIdentityHash staticRules name e rule) ruleNames rules

/-- **A configured resolver picks the versions in force at the registry cut**, name by
name. -/
theorem governs_of_rulesOf {s : MemoryLedger} {cut : Cut} {resolved : List Rule}
    (h : rulesOf rootIdentityHash ruleNames staticRules (s.registryEntries (some "rule") cut)
      = .ok resolved) : Governs s rootIdentityHash ruleNames staticRules cut resolved := by
  refine (Results.mapM_ok_iff.mp h).imp fun name rule hrule => ?_
  obtain ⟨e, hentry, himplements⟩ := resolveName_ok_iff.mp hrule
  exact ⟨e, MemoryLedger.inForce_of_get? hentry, himplements⟩

/-- The Rules that govern have the hashes of the versions in force. -/
theorem Governs.inForce {s : MemoryLedger} {cut : Cut} {resolved : List Rule}
    (h : Governs s rootIdentityHash ruleNames staticRules cut resolved) :
    List.Forall₂ (fun name rule => ∃ e, s.InForce name cut e ∧ e.hash = rule.hash) ruleNames
      resolved :=
  h.imp fun _ _ ⟨e, hforce, himplements⟩ => ⟨e, hforce, himplements.1⟩

end ConfiguredRuleResolver

/-! ### What an Act records -/

/-- **An Act was judged by the Rules in force** at a cut: for each configured name, in
order, it records the hash of the version in force there. -/
def JudgedInForce (s : MemoryLedger) (ruleNames : List String) (cut : Cut) (a : Act) : Prop :=
  List.Forall₂ (fun name h => ∃ e, s.InForce name cut e ∧ e.hash = h) ruleNames a.ruleHashes

/-- **An Act was judged at its registry cut**: the one its request declares, a closed part
of the decision cut, or else the decision cut itself. -/
structure JudgedAtRegistryCut (t : MemoryLedger) (ruleNames : List String)
    (request : ActionRequest) (a : Act) : Prop where
  registryCut : a.registryCut = request.registryCut.getD a.decisionCut
  registryClosed : t.isClosedCut a.registryCut = true
  registry_le : a.registryCut ⊆ a.decisionCut
  decisionClosed : t.isClosedCut a.decisionCut = true
  judged : JudgedInForce t ruleNames a.registryCut a
  /-- What was in force there is in force at the decision cut just when no higher version
  was born between the two. -/
  current_iff : ∀ name e, t.InForce name a.registryCut e → (t.InForce name a.decisionCut e ↔
    ∀ e', t.RuleVersion name a.decisionCut e' → e'.bornAt ∉ a.registryCut →
      e'.version ≤ e.version)

namespace AuthorityService

open Runs

/-- **The Rules in force at the registry cut decide.** Whatever calls a run makes of a
service with a configured resolver, every Act it adds was judged at its registry cut. -/
theorem rules_in_force (P : Primitives) (rootIdentityHash : Option Hash)
    (ruleNames : List String) (staticRules : Dict String Rule) (allowSignedWithoutOauth : Bool)
    (s : MemoryLedger) (calls : List Call) (k : Hash) (a : Act) (hnew : s.acts.get? k = none)
    (ha : (exec P ⟨ConfiguredRuleResolver.resolve rootIdentityHash ruleNames staticRules,
      allowSignedWithoutOauth⟩ MemoryLedger.registered s calls).acts.get? k = some a) :
    ∃ call ∈ calls, JudgedAtRegistryCut
      (exec P ⟨ConfiguredRuleResolver.resolve rootIdentityHash ruleNames staticRules,
        allowSignedWithoutOauth⟩ MemoryLedger.registered s calls) ruleNames call.request a := by
  obtain ⟨pre, call, E, hmade, hcommitted, hsound⟩ := exec_soundlyAdmitted hnew ha
  obtain ⟨resolved, results, hresolve, hhashes, -⟩ := hsound.ruled
  rw [ConfiguredRuleResolver.run_resolve, Prod.mk.injEq] at hresolve
  obtain ⟨u, -, hadm, -⟩ := hcommitted.admitted
  have hdecision : a.decisionCut = E.decision.cut := hadm.act_cut
  have hregistry : a.registryCut = E.decision.registryCut := hadm.registryCut
  refine ⟨call, hmade.mem, ?_, hsound.registryClosed, hsound.registry_le,
    hsound.decisionClosed, ?_, fun name e he => he.iff_of_subset hsound.registry_le⟩
  · rw [hregistry, hdecision]
    exact hcommitted.evaluation.registryCut
  · rw [JudgedInForce, hhashes, List.forall₂_map_right_iff]
    exact (ConfiguredRuleResolver.governs_of_rulesOf hresolve.1).inForce

/-! ### A superseded version -/

/-- The ledger once a second version of the Rule of genesis was born at a later Act. -/
def upgraded : MemoryLedger :=
  (created.register Sample.libraries "rule" ConfiguredRuleResolver.rootAuthorityName
    ("6441" ++ Sample.pad) 2 true none).2

/-- Another thing is asked for, to be judged by the registry of genesis. -/
def downgrade : Call :=
  ⟨{ Sample.signedRequest "CreateThing" "ThingCreated" "n-2" [("name", .str "two")] with
    registryCut := some {Sample.genesisHash Sample.pad} }, none⟩

/-- The ledger once it is made. -/
abbrev downgraded : MemoryLedger :=
  exec Sample.libraries Sample.authority MemoryLedger.registered upgraded [downgrade]

/-- The Act that makes it records the first version of the Rule. -/
theorem get?_downgraded : ∃ a, downgraded.acts.get? ("5fa2" ++ Sample.pad) = some a ∧
    a.ruleHashes = [ConfiguredRuleResolver.rootAuthorityName] ∧
    "6441" ++ Sample.pad ∈ a.decisionCut := by
  have hrun : (downgraded.acts.get? ("5fa2" ++ Sample.pad)).any (fun a =>
      decide (a.ruleHashes = [ConfiguredRuleResolver.rootAuthorityName] ∧
        "6441" ++ Sample.pad ∈ a.decisionCut)) = true := by
    decide +kernel
  rw [Option.any_eq_true] at hrun
  obtain ⟨a, ha, hrecords⟩ := hrun
  exact ⟨a, ha, of_decide_eq_true hrecords⟩

/-- The Act was judged at the registry of genesis, as its request asks. -/
theorem rules_in_force_downgrade : ∃ a, downgraded.acts.get? ("5fa2" ++ Sample.pad) = some a ∧
    JudgedAtRegistryCut downgraded [ConfiguredRuleResolver.rootAuthorityName] downgrade.request
      a := by
  have hnew : upgraded.acts.get? ("5fa2" ++ Sample.pad) = none := by decide +kernel
  obtain ⟨a, ha, -⟩ := get?_downgraded
  unfold downgraded Sample.authority at ha ⊢
  obtain ⟨call, hcall, hjudged⟩ :=
    rules_in_force Sample.libraries (some Sample.root.hash)
      [ConfiguredRuleResolver.rootAuthorityName] Dict.empty true upgraded [downgrade]
      ("5fa2" ++ Sample.pad) a hnew ha
  rw [List.mem_singleton.mp hcall] at hjudged
  exact ⟨a, ha, hjudged⟩

/-- **A superseded version decides.** The second version of the Rule is in force at the
decision cut of the new Act; the Act records the first. -/
theorem superseded_rule_decides : ∃ a, upgraded.acts.get? ("5fa2" ++ Sample.pad) = none ∧
    downgraded.acts.get? ("5fa2" ++ Sample.pad) = some a ∧
    ¬JudgedInForce downgraded [ConfiguredRuleResolver.rootAuthorityName] a.decisionCut a := by
  obtain ⟨a, ha, hhashes, hborn⟩ := get?_downgraded
  refine ⟨a, by decide +kernel, ha, ?_⟩
  rw [JudgedInForce, hhashes, List.forall₂_cons]
  rintro ⟨⟨e, hforce, hhash⟩, -⟩
  have hregistry : downgraded.registryMetadata = upgraded.registryMetadata :=
    (grows_exec List.nil_prefix).registryMetadata
  have hversions : (∃ e' ∈ upgraded.registryMetadata.values, e'.kind = "rule" ∧
        e'.name = ConfiguredRuleResolver.rootAuthorityName ∧
        e'.bornAt = "6441" ++ Sample.pad ∧ e'.version = 2) ∧
      ∀ e' ∈ upgraded.registryMetadata.values, 2 ≤ e'.version →
        e'.hash ≠ ConfiguredRuleResolver.rootAuthorityName := by
    decide +kernel
  rw [← hregistry] at hversions
  obtain ⟨⟨e', hentry, hkind, hname, hbornAt, hversion⟩, honly⟩ := hversions
  have hle := hforce.highest e' ⟨hentry, hkind, hname, hbornAt ▸ hborn⟩
  exact honly e hforce.version.entry (hversion ▸ hle) hhash

end AuthorityService

end PowerfarmKernel
