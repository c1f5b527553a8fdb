import PowerfarmKernel.Service.Concurrency
import PowerfarmKernel.Service.Principals

/-!
# Revocations, and clients that act meanwhile

A revocation is two transactions: the `PrincipalRevoked` Act is committed, and then the
binding is ended. In between – for good, when the revoking client crashes – history says
revoked and the resolver still says bound, and a client that resolves its principal then
has its Act admitted at a cut that holds the revocation
(`PowerfarmKernel.Clients.revoked_acts`).

That moment is the only way: where no client resolves a principal whose binding is
overtaken in this sense (`PowerfarmKernel.Clients.Stale`), no Act is admitted for a
principal its cut has revoked, and a client whose principal was resolved at such a moment
admits no other (`PowerfarmKernel.Clients.revocation_effective`).
-/

namespace PowerfarmKernel

open Prog LedgerM Interleaving

namespace Clients

open PrincipalService Runs

/-! ### What history says of a principal -/

/-- The Acts of a stretch of history that link or revoke this principal. -/
def about (P : Primitives) (objects : Dict Hash (Bytes × String)) (acts : List Act)
    (issuer subject : String) : List Act :=
  acts.filter fun a => (a.actType = linkKinds.2 ∨ a.actType = revokeKinds.2) ∧
    subjectOf (storedPayload P objects a) = (issuer, subject)

/-- **Revoked at a cut**: the cut holds a revocation of the principal that no link of it
follows. -/
def RevokedAt (P : Primitives) (db : Postgres) (cut : Cut) (issuer subject : String) : Prop :=
  ∃ earlier r later, about P db.objects (db.acts.filter fun a => a.hash ∈ cut) issuer subject
      = earlier ++ r :: later ∧
    r.actType = revokeKinds.2 ∧ ∀ l ∈ later, l.actType ≠ linkKinds.2

/-- **A stale binding**: history has revoked the principal, and it still resolves. -/
def Stale (P : Primitives) (db : Postgres) (issuer subject : String) : Prop :=
  RevokedAt P db db.historyCut issuer subject ∧ db.resolved issuer subject ≠ none

section Facts

variable {ι : Type} {P : Primitives} {s t : Postgres} {issuer subject : String}

theorem filter_historyCut (db : Postgres) :
    (db.acts.filter fun a => a.hash ∈ db.historyCut) = db.acts := by
  rw [List.filter_eq_self]
  intro a ha
  rw [decide_eq_true_eq]
  exact Postgres.mem_historyCut.mpr ⟨a, ha, rfl⟩

/-- Whether a principal is revoked does not change while history stands still. -/
theorem about_eq (hs : Postgres.Constraints s) (hst : Postgres.Grown s t) :
    about P t.objects s.acts issuer subject = about P s.objects s.acts issuer subject := by
  refine List.filter_congr fun a ha => ?_
  obtain ⟨found, hfound⟩ := hs.actsPayload a ha
  rw [storedPayload, storedPayload, hfound, Dict.get?_of_le hst.objects hfound]

theorem revokedAt_iff (hs : Postgres.Constraints s) (hst : Postgres.Grown s t)
    (hacts : t.acts = s.acts) : RevokedAt P t t.historyCut issuer subject ↔
      RevokedAt P s s.historyCut issuer subject := by
  rw [RevokedAt, RevokedAt, filter_historyCut, filter_historyCut, hacts, about_eq hs hst]

/-- **The last word on a principal** decides whether it is revoked. -/
theorem revokedAt_iff_getLast? {db : Postgres} {cut : Cut} : RevokedAt P db cut issuer subject ↔
    (about P db.objects (db.acts.filter fun a => a.hash ∈ cut) issuer subject).getLast?.map
      Act.actType = some revokeKinds.2 := by
  rw [Option.map_eq_some_iff]
  constructor
  · rintro ⟨earlier, r, later, heq, hrevoked, hlater⟩
    have hkinds : ∀ a ∈ r :: later, a.actType = linkKinds.2 ∨ a.actType = revokeKinds.2 := by
      intro a ha
      have hmem : a ∈ about P db.objects (db.acts.filter fun a => a.hash ∈ cut) issuer subject := by
        rw [heq]
        exact List.mem_append_right _ ha
      have hboth := (List.mem_filter.mp hmem).2
      rw [decide_eq_true_eq] at hboth
      exact hboth.1
    rw [heq, List.getLast?_append, List.getLast?_cons, Option.some_or]
    refine ⟨_, rfl, ?_⟩
    rcases later.eq_nil_or_concat with rfl | ⟨later, a, rfl⟩
    · exact hrevoked
    · rw [List.concat_eq_append] at hkinds hlater ⊢
      rw [List.getLast?_append, List.getLast?_singleton, Option.some_or, Option.getD_some]
      have ha : a ∈ later ++ [a] := List.mem_append_right _ (List.mem_singleton_self a)
      exact (hkinds a (List.mem_cons_of_mem _ ha)).resolve_left (hlater a ha)
  · rintro ⟨r, hlast, hrevoked⟩
    obtain ⟨earlier, heq⟩ := List.getLast?_eq_some_iff.mp hlast
    exact ⟨earlier, r, [], heq, hrevoked, fun l hl => absurd hl List.not_mem_nil⟩

end Facts

/-! ### Clients -/

/-- **A client of the database**: it commits an action, or it links or revokes a
principal. -/
inductive Client where
  | commit (call : Call)
  | change (c : Change)

namespace Client

/-- The call a client makes. -/
def call : Client → Call
  | commit call => call
  | change c => c.call

/-- What a client runs. -/
def run (P : Primitives) (service : AuthorityService) : Client → LedgerM (EvaluatedAction × Act)
  | commit call => AuthorityService.commit P service call.request call.principal
  | change c => submit P service c.op c.call.request c.call.principal

end Client

section Runs

variable {ι : Type} {P : Primitives} {service : AuthorityService} {db s : Postgres}
  {fact : ι → Postgres → Prop} {allowed : ι → Postgres → LedgerOp → Prop} {i : ι}

/-- Writing a binding is no commit. -/
theorem safe_project (op : Operation) (payload : List (String × CanonValue)) (act : Act) :
    Safe (discipline P fact allowed) i (fun _ _ => True) (op.project payload act) s := by
  cases op with
  | link => exact Safe.call fun _ _ _ _ => ⟨trivial, fun _ _ _ _ _ => trivial⟩
  | revoke => exact Safe.call fun _ _ _ _ => ⟨trivial, fun _ _ _ _ _ => trivial⟩

/-- **A run of a client keeps the discipline.** -/
theorem safe_run {client : Client} (hfact : Stable (fact i))
    (hnone : client.call.principal = none → ∀ db, fact i db)
    (hsome : ∀ p, client.call.principal = some p → ∀ db,
      allowed i db (.resolvePrincipal p.issuer p.subject) →
        db.resolved p.issuer p.subject ≠ none → fact i db) :
    Safe (discipline P fact allowed) i (fun _ _ => True) (client.run P service) s := by
  rcases client with call | c
  · exact safe_commit hfact hnone hsome
  · rw [Client.run, submit]
    refine Safe.bind_ofExcept fun payload _ => Safe.bind ?_
    refine (safe_commit hfact hnone hsome).imp fun result t _ _ _ => Safe.bind ?_
    exact (safe_project _ _ _).imp fun _ _ _ _ _ => Safe.pure fun _ _ _ => trivial

/-- A database and its clients. -/
def serving (P : Primitives) (service : AuthorityService) (db : Postgres) (clients : ι → Client) :
    Config LedgerOp.Ret Raised Postgres ι (EvaluatedAction × Act) where
  state := db
  rest i := (clients i).run P service

variable [DecidableEq ι] {clients : ι → Client} {schedule : List ι}

/-- **A fact that holds whenever a client's principal resolves**, and that only a commit
could end, holds when the client's Act is admitted. -/
theorem fact_of_admits {G : Postgres → Prop} (hG : Stable G) (hdb : db.Constraints)
    {p : RequestPrincipal} (hp : (clients i).call.principal = some p)
    (hresolve : ∀ earlier, Made schedule earlier i →
      Performs (exec (Postgres.handle P) (serving P service db clients) earlier) i
        (.resolvePrincipal p.issuer p.subject) →
      (exec (Postgres.handle P) (serving P service db clients) earlier).state.resolved
        p.issuer p.subject ≠ none →
      G (exec (Postgres.handle P) (serving P service db clients) earlier).state)
    {earlier : List ι} {act : Act} (hmade : Made schedule earlier i)
    (hadmits : Admits P (exec (Postgres.handle P) (serving P service db clients) earlier) i act) :
    act.decisionCut
        = (exec (Postgres.handle P) (serving P service db clients) earlier).state.historyCut ∧
      G (exec (Postgres.handle P) (serving P service db clients) earlier).state := by
  have hsafe : ∀ j, Safe (discipline P (fun j db => j = i → G db) fun j db o => j = i →
      o = .resolvePrincipal p.issuer p.subject → db.resolved p.issuer p.subject ≠ none →
        G db) j (fun _ _ => True) ((serving P service db clients).rest j) db := by
    -- Only client `i` keeps the fact, from its resolving of the principal to its commit.
    intro j
    refine safe_run (fun s t hs hst hacts h hj => hG s t hs hst hacts (h hj)) ?_ ?_
    · rintro hnone db rfl
      rw [hp] at hnone
      cases hnone
    · rintro q hq db hok hfound rfl
      rw [hp] at hq
      cases hq
      exact hok rfl rfl hfound
  obtain ⟨hcut, -, hfact⟩ := good_of_admits hdb hsafe
    (by
      rintro before j hbefore o ho rfl rfl hfound
      exact hresolve before hbefore ho hfound) hmade hadmits
  exact ⟨hcut, hfact rfl⟩

/-- **A revocation takes effect with its Act**, as long as nobody resolves a principal
whose binding is stale. Clients commit, link and revoke, their steps interleave in any
order, and any of them may stop for good after any of its steps. A client whose principal
is not stale when it resolves it has no Act admitted at a cut that has revoked the
principal; and a client whose principal is stale when it resolves it has no Act admitted
at any other cut. -/
theorem revocation_effective (P : Primitives) (service : AuthorityService) (db : Postgres)
    (hdb : db.Constraints) (clients : ι → Client) (schedule : List ι) (i : ι)
    (p : RequestPrincipal) (hp : (clients i).call.principal = some p) :
    ((∀ earlier, Made schedule earlier i →
        Performs (exec (Postgres.handle P) (serving P service db clients) earlier) i
          (.resolvePrincipal p.issuer p.subject) →
        ¬Stale P (exec (Postgres.handle P) (serving P service db clients) earlier).state p.issuer
          p.subject) →
      ∀ earlier act, Made schedule earlier i →
        Admits P (exec (Postgres.handle P) (serving P service db clients) earlier) i act →
        ¬RevokedAt P (exec (Postgres.handle P) (serving P service db clients) earlier).state
          act.decisionCut p.issuer p.subject) ∧
      ((∀ earlier, Made schedule earlier i →
          Performs (exec (Postgres.handle P) (serving P service db clients) earlier) i
            (.resolvePrincipal p.issuer p.subject) →
          Stale P (exec (Postgres.handle P) (serving P service db clients) earlier).state p.issuer
            p.subject) →
        ∀ earlier act, Made schedule earlier i →
          Admits P (exec (Postgres.handle P) (serving P service db clients) earlier) i act →
          RevokedAt P (exec (Postgres.handle P) (serving P service db clients) earlier).state
            act.decisionCut p.issuer p.subject) := by
  constructor
  · intro hfresh earlier act hmade hadmits
    -- No commit in between: history is the same, and so is what it has revoked.
    have hstable : Stable fun db => ¬RevokedAt P db db.historyCut p.issuer p.subject :=
      fun s t hs hst hacts h => mt (revokedAt_iff hs hst hacts).mp h
    obtain ⟨hcut, hrevoked⟩ := fact_of_admits hstable hdb hp
      (fun before hbefore ho hfound hrevoked => hfresh before hbefore ho ⟨hrevoked, hfound⟩)
      hmade hadmits
    rw [hcut]
    exact hrevoked
  · intro hstale earlier act hmade hadmits
    have hstable : Stable fun db => RevokedAt P db db.historyCut p.issuer p.subject :=
      fun s t hs hst hacts => (revokedAt_iff hs hst hacts).mpr
    obtain ⟨hcut, hrevoked⟩ := fact_of_admits hstable hdb hp
      (fun before hbefore ho _ => (hstale before hbefore ho).1) hmade hadmits
    rw [hcut]
    exact hrevoked

/-! ### A run in which a revocation is overtaken -/

/-- A longer schedule has a longer history. -/
theorem grown_exec {α : Type} (c : Config LedgerOp.Ret Raised Postgres ι α) {earlier : List ι}
    (hearlier : earlier <+: schedule) :
    Postgres.Grown (exec (Postgres.handle P) c earlier).state
      (exec (Postgres.handle P) c schedule).state := by
  refine exec_rel (R := fun c d : Config LedgerOp.Ret Raised Postgres ι α =>
    Postgres.Grown c.state d.state) (fun _ => Postgres.Grown.refl _) (fun h h' => h.trans h')
    (fun c i => ?_) hearlier
  rcases next_cases (Postgres.handle P) c i with heq | ⟨o, k, -, heq⟩
  · rw [heq]
    exact Postgres.Grown.refl _
  · rw [heq]
    exact Postgres.grown_handle P o c.state

/-- A step that made history one Act longer admitted that Act. -/
theorem exists_admits {α : Type} {c : Config LedgerOp.Ret Raised Postgres ι α}
    (hlength : (next (Postgres.handle P) c i).state.acts.length = c.state.acts.length + 1) :
    ∃ act, Admits P c i act := by
  rcases next_cases (Postgres.handle P) c i with heq | ⟨o, k, -, heq⟩
  · rw [heq] at hlength
    omega
  · obtain ⟨post, hpost⟩ := (Postgres.grown_handle P o c.state).acts
    rw [heq, ← hpost, List.length_append] at hlength
    obtain ⟨act, rfl⟩ := List.length_eq_one_iff.mp (show post.length = 1 by omega)
    exact ⟨act, by rw [Admits, heq]; exact hpost.symm⟩

/-- An Act admitted where the last word on a principal is a revocation is decided at a
cut that has revoked it. -/
theorem exists_revoked {α : Type} {c : Config LedgerOp.Ret Raised Postgres ι α}
    {issuer subject : String} (hinv : c.state.Constraints)
    (hlength : (next (Postgres.handle P) c i).state.acts.length = c.state.acts.length + 1)
    (hlast : (about P c.state.objects c.state.acts issuer subject).getLast?.map Act.actType
      = some revokeKinds.2) :
    ∃ act, Admits P c i act ∧ RevokedAt P c.state act.decisionCut issuer subject := by
  obtain ⟨act, hadmits⟩ := exists_admits hlength
  obtain ⟨-, -, -, hinserted⟩ := hadmits.inserted
  refine ⟨act, hadmits, ?_⟩
  rw [hinserted.decisionCut hinv, revokedAt_iff_getLast?, filter_historyCut]
  exact hlast

end Runs

/-- The clients of the runs below. -/
inductive Party where
  | linker
  | revoker
  | member
deriving DecidableEq

namespace Party

/-- One of them links a principal, one revokes the link, and one acts for the
principal. -/
def client : Party → Client
  | linker => .change linkCall
  | revoker => .change revokeCall
  | member => .commit ⟨Sample.createThing, some ⟨"https://idp", "alice", "console"⟩⟩

end Party

/-- The database and these clients, before any of them acts. -/
abbrev parties : Config LedgerOp.Ret Raised Postgres Party (EvaluatedAction × Act) :=
  serving Sample.libraries Sample.standingAuthority Sample.database Party.client

/-- The link is made, the revocation gets as far as its Act, and the member acts. -/
def crashed : List Party :=
  List.replicate 31 .linker ++ List.replicate 30 .revoker ++ List.replicate 30 .member

open Runs in
/-- **A revoked principal acts**: a revocation whose client stops after its Act leaves
the binding in place, and an Act is admitted for the principal at a cut that has revoked
it. -/
theorem revoked_acts : ∃ act,
    Admits Sample.libraries (exec (Postgres.handle Sample.libraries) parties crashed) .member act ∧
      RevokedAt Sample.libraries
        (exec (Postgres.handle Sample.libraries) parties crashed).state act.decisionCut
        "https://idp" "alice" := by
  have heval : (next (Postgres.handle Sample.libraries)
        (exec (Postgres.handle Sample.libraries) parties crashed) .member).state.acts.length
        = (exec (Postgres.handle Sample.libraries) parties crashed).state.acts.length + 1 ∧
      (about Sample.libraries
        (exec (Postgres.handle Sample.libraries) parties crashed).state.objects
        (exec (Postgres.handle Sample.libraries) parties crashed).state.acts "https://idp"
          "alice").getLast?.map Act.actType = some revokeKinds.2 := by
    decide +kernel
  exact exists_revoked
    (exec_state_inv (fun _ o h => h.handle o) Sample.constraints_database crashed)
    heval.1 heval.2

/-- The link is made, and the member is about to have its Act admitted. -/
def linked : List Party := List.replicate 31 .linker ++ List.replicate 30 .member

open Runs in
/-- Where nobody revokes the link, no principal that is resolved is stale. -/
theorem revocation_effective_linked : ∃ act,
    Admits Sample.libraries (exec (Postgres.handle Sample.libraries) parties linked) .member act ∧
      ¬RevokedAt Sample.libraries (exec (Postgres.handle Sample.libraries) parties linked).state
        act.decisionCut "https://idp" "alice" := by
  have heval : (next (Postgres.handle Sample.libraries)
        (exec (Postgres.handle Sample.libraries) parties linked) .member).state.acts.length
        = (exec (Postgres.handle Sample.libraries) parties linked).state.acts.length + 1 ∧
      ∀ a ∈ (exec (Postgres.handle Sample.libraries) parties linked).state.acts,
        a.actType ≠ revokeKinds.2 := by
    decide +kernel
  have hmade : Made (linked ++ [.member]) linked .member := List.prefix_rfl
  obtain ⟨act, hadmits⟩ := exists_admits heval.1
  refine ⟨act, hadmits, (revocation_effective Sample.libraries Sample.standingAuthority
    Sample.database Sample.constraints_database Party.client (linked ++ [.member]) .member
    ⟨"https://idp", "alice", "console"⟩ rfl).1 ?_ linked act hmade hadmits⟩
  rintro earlier hearlier - ⟨⟨before, r, after, heq, hrevoked, -⟩, -⟩
  have hr : r ∈ before ++ r :: after := List.mem_append_right _ List.mem_cons_self
  rw [← heq] at hr
  have hold := List.mem_of_mem_filter (List.mem_of_mem_filter hr)
  have hprefix : earlier <+: linked := by
    rcases made_concat_iff.mp hearlier with hbefore | ⟨rfl, -⟩
    · exact hbefore.earlier
    · exact List.prefix_rfl
  exact heval.2 r ((grown_exec parties hprefix).acts.subset hold) hrevoked

end Clients

end PowerfarmKernel
