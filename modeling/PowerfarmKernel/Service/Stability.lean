import PowerfarmKernel.Ledger.Later
import PowerfarmKernel.Lib.Carries
import PowerfarmKernel.Service.Sample

/-!
# An evaluation at explicit cuts is stable

A historical authorization can be reconstructed: what `AuthorityService.evaluate` returns at
two explicit cuts it returns in every later state of the database
(`PowerfarmKernel.AuthorityService.evaluate_stable`). The evaluation reads through seven
methods of the store. Five of them answer as they did; the other two are checks that
do not get stricter, of a cut being closed and of a payload being stored. The Rules are pure
and come from the resolver of the repository, whatever it is configured with.
-/

namespace PowerfarmKernel

open Prog LedgerM

variable {P : Primitives} {historyCut registryCut : Cut} {db t : Postgres}

namespace Postgres.Unmoved

variable (h : Unmoved historyCut registryCut db t)

include h

theorem carries_registered (kind name : String) :
    Carries (handle P) db t (LedgerM.registered kind name registryCut) := by
  refine .call rfl rfl fun known hknown => ?_
  rw [← hknown]
  exact congrArg Except.ok (h.registered kind name)

theorem carries_getIdentity (identityHash : Hash) :
    Carries (handle P) db t (LedgerM.getIdentity identityHash historyCut) := by
  refine .call rfl rfl fun found hfound => ?_
  rw [← hfound]
  exact h.getIdentity identityHash

theorem carries_resolvePrincipal (issuer subject : String) :
    Carries (handle P) db t (LedgerM.resolvePrincipal issuer subject) := by
  refine .call rfl rfl fun found hfound => ?_
  rw [← hfound]
  exact h.resolvePrincipal issuer subject

theorem carries_registryEntries
    (hdefined : ∀ r ∈ db.registry, ∃ found, db.objects.get? r.hash = some found)
    (kind : Option String) :
    Carries (handle P) db t (LedgerM.registryEntries kind registryCut) := by
  refine .call rfl rfl fun entries hentries => ?_
  rw [← hentries]
  exact h.registryEntries hdefined kind

/-- A program that raises unless a cut is closed. -/
theorem carries_isClosedCut (ht : Constraints t) (cut : Cut) {α : Type}
    {f : Bool → LedgerM α} (hraise : ∀ a s', (f false).run (handle P) db ≠ (.ok a, s'))
    (hf : Carries (handle P) db t (f true)) :
    Carries (handle P) db t (LedgerM.isClosedCut cut >>= f) := by
  refine .check rfl rfl (fun hclosed => ?_) hraise hf
  exact congrArg Except.ok (h.isClosedCut ht (Except.ok.inj hclosed))

/-- A program that raises unless an object is stored. -/
theorem carries_hasObject (x : Hash) {α : Type} {f : Bool → LedgerM α}
    (hraise : ∀ a s', (f false).run (handle P) db ≠ (.ok a, s'))
    (hf : Carries (handle P) db t (f true)) :
    Carries (handle P) db t (LedgerM.hasObject x >>= f) := by
  refine .check rfl rfl (fun hstored => ?_) hraise hf
  exact congrArg Except.ok (h.getObject_isSome (Except.ok.inj hstored))

end Postgres.Unmoved

namespace AuthorityService

variable (h : Postgres.Unmoved historyCut registryCut db t)

include h

theorem carries_performer (command : Command) :
    Carries (Postgres.handle P) db t (performer command historyCut) := by
  refine (h.carries_getIdentity _).bind fun found => ?_
  rcases found with _ | identity
  · exact .raise _
  · exact .pure _

theorem carries_resolveRequester (allow : Bool) (identity : Identity)
    (principal : Option RequestPrincipal) : Carries (Postgres.handle P) db t
      (IdentityService.resolveRequester allow identity principal historyCut) := by
  rcases principal with _ | principal
  · exact .ite (.raise _) (.pure _)
  · refine (h.carries_resolvePrincipal _ _).bind fun resolved => ?_
    rcases resolved with _ | requesterHash
    · exact .raise _
    · refine .ite (.pure _) ((h.carries_getIdentity _).bind fun found => ?_)
      rcases found with _ | requester
      · exact .raise _
      · exact .pure _

theorem carries_validatePayload (request : ActionRequest) :
    Carries (Postgres.handle P) db t (validatePayload P request) := by
  rw [validatePayload]
  rcases request.payload with _ | payload
  · refine h.carries_hasObject _ ?_ (.raiseWhen _ _)
    intro a s' hrun
    cases hrun
  · exact .bind (.ofExcept _) fun _ => .raiseWhen _ _

theorem carries_validateRegistry (request : ActionRequest) (context : Context) :
    Carries (Postgres.handle P) db t (validateRegistry request context registryCut) := by
  refine (h.carries_registered _ _).bind fun _ => .bind (.raiseWhen _ _) fun _ => ?_
  refine (h.carries_registered _ _).bind fun _ => .bind (.raiseWhen _ _) fun _ => ?_
  exact .forM (f := requireContextType registryCut)
    (fun _ => (h.carries_registered _ _).bind fun _ => .raiseWhen _ _) _

theorem carries_resolve
    (hdefined : ∀ r ∈ db.registry, ∃ found, db.objects.get? r.hash = some found)
    (rootIdentityHash : Option Hash) (ruleNames : List String) (staticRules : Dict String Rule)
    (command : Command) (context : Context) : Carries (Postgres.handle P) db t
      ((ConfiguredRuleResolver.resolve rootIdentityHash ruleNames staticRules).resolve command
        context historyCut registryCut) :=
  (h.carries_registryEntries hdefined _).bind fun _ => .ofExcept _

/-- **The evaluation at two cuts carries over.** -/
theorem carries_evaluateAt (ht : Postgres.Constraints t)
    (hdefined : ∀ r ∈ db.registry, ∃ found, db.objects.get? r.hash = some found)
    (rootIdentityHash : Option Hash) (ruleNames : List String) (staticRules : Dict String Rule)
    (allow : Bool) (request : ActionRequest) (principal : Option RequestPrincipal)
    (command : Command) : Carries (Postgres.handle P) db t
      (evaluateAt P ⟨ConfiguredRuleResolver.resolve rootIdentityHash ruleNames staticRules, allow⟩
        request principal command historyCut registryCut) := by
  refine h.carries_isClosedCut ht _ ?_ (.bind (.raiseWhen _ _) fun _ => ?_)
  · intro a s' hrun
    exact (run_raiseWhen_bind_ok.mp hrun).1 rfl
  refine h.carries_isClosedCut ht _ ?_ (.bind (.raiseWhen _ _) fun _ => ?_)
  · intro a s' hrun
    exact (run_raiseWhen_bind_ok.mp hrun).1 (Or.inl rfl)
  refine (carries_performer h _).bind fun identity => .bind (.raiseWhen _ _) fun _ => ?_
  refine (carries_resolveRequester h _ _ _).bind fun requester => ?_
  refine .bind (.ofExcept _) fun context => (carries_validatePayload h _).bind fun _ => ?_
  refine (carries_validateRegistry h _ _).bind fun _ => ?_
  refine (carries_resolve h hdefined _ _ _ _ _).bind fun rules => .bind (.raiseWhen _ _) fun _ => ?_
  refine .bind (.anyM (fun _ => (h.carries_registered _ _).bind fun _ => .pure _) _) fun _ => ?_
  exact .bind (.raiseWhen _ _) fun _ => .bind (.ofExcept _) fun _ => .pure _

omit h

/-- The current history does not enter an evaluation at explicit cuts. -/
theorem run_evaluate_of_cuts {service : AuthorityService} {request : ActionRequest}
    (principal : Option RequestPrincipal) (hhistory : request.historyCut = some historyCut)
    (hregistry : request.registryCut = some registryCut) (s : Postgres) :
    (evaluate P service request principal).run (Postgres.handle P) s =
      (ofExcept request.command >>= fun command => evaluateAt P service request principal command
        historyCut registryCut).run (Postgres.handle P) s := by
  rw [evaluate, run_bind, run_bind, hhistory, hregistry]
  rcases request.command with e | command
  · rfl
  · rfl

/-- **Evaluation at explicit cuts is stable under later history.** -/
theorem evaluate_stable (P : Primitives) (rootIdentityHash : Option Hash)
    (ruleNames : List String) (staticRules : Dict String Rule) (allow : Bool)
    (request : ActionRequest) (principal : Option RequestPrincipal) (historyCut registryCut : Cut)
    (hhistory : request.historyCut = some historyCut)
    (hregistry : request.registryCut = some registryCut) (db t : Postgres)
    (hc : Postgres.Constraints db)
    (hdefined : ∀ r ∈ db.registry, ∃ found, db.objects.get? r.hash = some found)
    (hlater : Postgres.Later historyCut registryCut db t) (E : EvaluatedAction)
    (hE : ((evaluate P
      ⟨ConfiguredRuleResolver.resolve rootIdentityHash ruleNames staticRules, allow⟩ request
        principal).run (Postgres.handle P) db).1 = .ok E) :
    ((evaluate P
      ⟨ConfiguredRuleResolver.resolve rootIdentityHash ruleNames staticRules, allow⟩ request
        principal).run (Postgres.handle P) t).1 = .ok E := by
  have hcarries := Carries.bind (.ofExcept request.command) fun command =>
    carries_evaluateAt (P := P) hlater.unmoved (hlater.constraints hc) hdefined rootIdentityHash
      ruleNames staticRules allow request principal command
  rw [run_evaluate_of_cuts principal hhistory hregistry] at hE ⊢
  rw [(hcarries E _ (Prod.ext hE rfl)).2]

end AuthorityService

/-! ### An example -/

namespace Sample

/-- A request for a thing, at the cuts of genesis. -/
def historicalThing : ActionRequest :=
  { createThing with historyCut := some {genesisHash pad}, registryCut := some {genesisHash pad} }

/-- The Rule of genesis is superseded, and the key of the root Identity is replaced, at the
Act that created a thing. -/
def rotate (db : Postgres) : Postgres :=
  { db with
    registry := db.registry ++
      [⟨"2222" ++ pad, "rule", ConfiguredRuleResolver.rootAuthorityName, 2, thing.hash, true⟩]
    identityKeys := db.identityKeys.map (fun k =>
      if true ∧ k.validUntilAct = none then { k with validUntilAct := some thing.hash } else k) ++
      [⟨root.hash, "1111" ++ pad, thing.hash, none⟩] }

theorem later_rotate (db : Postgres) :
    Postgres.Later {genesisHash pad} {genesisHash pad} db (rotate db) := by
  have hout : thing.hash ∉ ({genesisHash pad} : Cut) := by decide +kernel
  exact .tail (.tail (.single (.register _ hout)) (.closeKeys (fun _ => true) _ hout))
    (.addKey _ hout)

end Sample

/-- The decision of genesis is found again when a thing has been created, its Rule
superseded and its key replaced. -/
theorem AuthorityService.evaluate_stable_thing : ∃ t E,
    t.acts = Sample.database.acts ++ [Sample.thing] ∧
      ((evaluate Sample.libraries Sample.authority Sample.historicalThing none).run
        (Postgres.handle Sample.libraries) (Sample.rotate t)).1 = .ok E := by
  have hok : (Sample.database.commitAct Sample.thing [1] "CreateThing").toOption.isSome = true := by
    decide +kernel
  have hnew : Sample.database.getAct Sample.thing.hash = none := by decide +kernel
  have heval : (((evaluate Sample.libraries Sample.authority Sample.historicalThing none).run
      (Postgres.handle Sample.libraries) Sample.database).1.toOption).isSome = true := by
    decide +kernel
  have hdefined : ∀ r ∈ Sample.database.registry,
      ∃ found, Sample.database.objects.get? r.hash = some found := by
    simp only [← Option.isSome_iff_exists]
    decide +kernel
  obtain ⟨⟨r, t⟩, hcommit⟩ := Option.isSome_iff_exists.mp hok
  obtain ⟨E, hE⟩ := Option.isSome_iff_exists.mp heval
  have hcommit := Sample.ok_of_toOption hcommit
  have hacts : t.acts = Sample.database.acts ++ [Sample.thing] := by
    rcases Postgres.commitAct_ok hcommit with ⟨hget, -⟩ | ⟨-, hinserted⟩
    · rw [hnew] at hget
      cases hget
    · exact hinserted.acts
  refine ⟨t, E, hacts, ?_⟩
  exact evaluate_stable Sample.libraries (some Sample.root.hash)
    [ConfiguredRuleResolver.rootAuthorityName] Dict.empty true Sample.historicalThing none
    {Sample.genesisHash Sample.pad} {Sample.genesisHash Sample.pad} rfl rfl Sample.database
    (Sample.rotate t) Sample.constraints_database hdefined
    (.trans (.single (.commit hcommit)) (Sample.later_rotate t)) E (Sample.ok_of_toOption hE)

end PowerfarmKernel
