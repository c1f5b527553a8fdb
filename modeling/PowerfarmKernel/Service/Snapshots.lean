import PowerfarmKernel.Service.Atomicity
import PowerfarmKernel.Service.Doors
import PowerfarmKernel.Service.Explain
import PowerfarmKernel.Service.Trajectory

/-!
# Reports read while others write

`LifecycleService.trajectory` and `ExplainService.action` read several times, and other
clients commit in between. What they report need not have been so at any one moment.

A trajectory reads the Acts of its Command twice: once for the Acts it lists and the chains
it walks, and at the end once more for the status. All but the status is as it was at the
first step, and the status is as it was at the last
(`PowerfarmKernel.Clients.trajectory_snapshot`). An explanation reads four rows that never
change once they are there; and they are all there, because the gate stores what an Act
refers to before it places the Act. Of an Act that was there at the start this is assumed. So
whoever explains an Act, and whenever, is told the same
(`PowerfarmKernel.Clients.explanation_permanent`).
-/

namespace PowerfarmKernel

open Prog LedgerM Interleaving Runs

/-- Every link of every chain is an Act of history. -/
def Postgres.ChainsKnown (db : Postgres) : Prop :=
  ∀ a ∈ db.acts, ∀ link ∈ a.authChain, db.HasAct link

theorem Postgres.ChainsKnown.handle {P : Primitives} {db : Postgres} (h : db.ChainsKnown)
    (o : LedgerOp) :
    (Postgres.handle P o db).2.ChainsKnown := by
  have hgrown := Postgres.grown_handle P o db
  rcases Postgres.handle_cases P o db with ⟨act, canon, commandType, -, hinserted⟩ | hkept
  · intro a ha link hlink
    rw [hinserted.acts, List.mem_append, List.mem_singleton] at ha
    rcases ha with ha | rfl
    · exact hgrown.hasAct (h a ha link hlink)
    · exact hgrown.hasAct (hinserted.chain link hlink)
  · intro a ha link hlink
    rw [hkept.acts] at ha
    exact hgrown.hasAct (h a ha link hlink)

namespace Clients

variable {ι : Type} {P : Primitives} {s t u : Postgres}

/-! ### A trajectory -/

section Trajectory

open LifecycleService

/-- An Act that is found is found later on, and is the same. -/
theorem getAct_later (hst : Postgres.Steady s t) {x : Hash} (hx : s.HasAct x) :
    t.getAct x = s.getAct x := by
  obtain ⟨post, hpost⟩ := hst.acts
  rw [Postgres.getAct, ← hpost, List.find?_append]
  change (s.getAct x).or _ = s.getAct x
  rcases hfound : s.getAct x with _ | a
  · exact absurd hx (Postgres.getAct_eq_none_iff.mp hfound)
  · rw [Option.some_or]

/-- The walk through the chains of some Acts asks for their links only. -/
theorem only_walk (owned : List Act) :
    (owned.foldlM (fun participating (act : Act) =>
      act.authChain.foldlM (collect owned) participating) (Dict.empty : Dict Hash Act)).Only
        fun o => ∃ a ∈ owned, ∃ link ∈ a.authChain, o = .getAct link := by
  refine Prog.Only.foldlM (fun _ a ha => Prog.Only.foldlM (fun _ link hlink => ?_) _) _
  rw [collect]
  refine .ite (.pure _) (.bind (.call ⟨a, ha, link, hlink, rfl⟩) fun linked => ?_)
  rcases linked with _ | act
  · exact .pure _
  · exact .pure _

variable [DecidableEq ι] {c : Config LedgerOp.Ret Raised Postgres ι Trajectory}
  {schedule : List ι} {i : ι}

/-- **The rest of a trajectory**, once the Acts of the Command are read: the walk finds what
it would have found then, and the status is read anew. -/
theorem firm_trajectory {commandHash : Hash} {first : List ι}
    (hlinked : (exec (Postgres.handle P) c first).state.ChainsKnown) :
    Firm (Postgres.drift P) (onward (Postgres.drift P) c schedule i first)
      (fun T => ∃ last U, Made schedule last i ∧ first <+: last ∧
        (trajectory commandHash).run (Postgres.handle P) (exec (Postgres.handle P) c first).state =
          (.ok U, (exec (Postgres.handle P) c first).state) ∧
        T = { U with status := (LifecycleService.project commandHash
          ((exec (Postgres.handle P) c last).state.getActsForCommand commandHash)).status })
      (fun _ _ => False)
      (do
        let participating ← ((exec (Postgres.handle P) c first).state.getActsForCommand
          commandHash).foldlM (fun participating (act : Act) => act.authChain.foldlM
            (collect ((exec (Postgres.handle P) c first).state.getActsForCommand commandHash))
              participating) Dict.empty
        let current ← status commandHash
        return {
          commandHash := commandHash
          owned := ((exec (Postgres.handle P) c first).state.getActsForCommand
            commandHash).map node
          participating := participating.values.map participant
          status := current.status })
      (exec (Postgres.handle P) c first).state := by
  set u := (exec (Postgres.handle P) c first).state
  refine Firm.bind_only (only_walk (u.getActsForCommand commandHash)) ?_ ?_
  · rintro o ⟨a, ha, link, hlink, rfl⟩ t _ hst _
    have hknown := hlinked a (Postgres.mem_getActsForCommand.mp ha).1 link hlink
    have hsame : Postgres.handle P (.getAct link) u =
        ((Postgres.handle P (.getAct link) t).1, u) := by
      rw [Postgres.handle, Postgres.handle, getAct_later hst hknown]
    exact hsame
  · intro participating t _ _ hwalk
    rw [status, LawfulMonad.bind_assoc]
    refine Firm.bind_call fun v _ _ hallowed _ acts hacts => Or.inl ?_
    obtain ⟨last, hpre, hmade, rfl⟩ := hallowed
    cases hacts
    change Prog.run _ _ u = (.ok participating, u) at hwalk
    refine ⟨last, ⟨commandHash, (u.getActsForCommand commandHash).map node,
      participating.values.map participant,
      (LifecycleService.project commandHash (u.getActsForCommand commandHash)).status⟩,
      hmade, hpre, ?_, rfl⟩
    have howned : (getActsForCommand commandHash).run (Postgres.handle P) u =
        (.ok (u.getActsForCommand commandHash), u) := rfl
    rw [trajectory, run_bind_of_eq howned, run_bind_of_eq hwalk]
    rfl

/-- **A trajectory is a snapshot, except for its status.** One of the clients of a database
reconstructs the trajectory of a Command, the others do whatever they like. What it returns
is what it would have returned at once in its first step, but for the status, which is the
one the Command had in a later step of its own. -/
theorem trajectory_snapshot (P : Primitives) (commandHash : Hash)
    (c : Config LedgerOp.Ret Raised Postgres ι Trajectory) (hdb : c.state.Constraints)
    (hdefined : c.state.Defined) (hlinked : c.state.ChainsKnown) (i : ι)
    (hclient : c.rest i = trajectory commandHash) (schedule : List ι) (T : Trajectory)
    (hret : (exec (Postgres.handle P) c schedule).rest i = .ret T) :
    ∃ first last U, Made schedule first i ∧ Made schedule last i ∧ first <+: last ∧
      (trajectory commandHash).run (Postgres.handle P) (exec (Postgres.handle P) c first).state =
        (.ok U, (exec (Postgres.handle P) c first).state) ∧
      T = { U with
        status := (LifecycleService.project commandHash
          ((exec (Postgres.handle P) c last).state.getActsForCommand commandHash)).status } := by
  have hinv : (Postgres.drift P).inv c.state := ⟨hdb, hdefined⟩
  have hrest : c.rest i = .step (.getActsForCommand commandHash) _ := hclient
  have hi : i ∈ schedule := by
    by_contra hi
    rw [exec_rest_of_notMem hi, hrest] at hret
    cases hret
  obtain ⟨first, hmade, hend⟩ := exec_onward (Q := fun _ _ => False)
    (B := fun first T => ∃ last U, Made schedule last i ∧ first <+: last ∧
      (trajectory commandHash).run (Postgres.handle P) (exec (Postgres.handle P) c first).state =
        (.ok U, (exec (Postgres.handle P) c first).state) ∧
      T = { U with status := (LifecycleService.project commandHash
        ((exec (Postgres.handle P) c last).state.getActsForCommand commandHash)).status })
    hinv hrest (fun _ => rfl) (fun first _ => firm_trajectory
      (exec_state_inv (fun _ o h => h.handle o) hlinked first)) hi
  rw [hret] at hend
  rcases hend with ⟨last, U, hlast, hpre, hrun, hT⟩ | ⟨hnever, -⟩
  · exact ⟨first, last, U, hmade, hlast, hpre, hrun, hT⟩
  · exact (hnever _ (exec_inv_of_drift _ hinv schedule) (Postgres.Steady.refl _)).elim

/-- The Command of the request for a thing. -/
def createdCommand : Hash := "a50c" ++ Sample.pad

/-- One client reconstructs the trajectory of a Command, and the other commits it. -/
def watched : Config LedgerOp.Ret Raised Postgres Bool Trajectory where
  state := Sample.database
  rest
    | true => trajectory createdCommand
    | false => do
        let _ ← AuthorityService.commit Sample.libraries Sample.standingAuthority
          Sample.createThing none
        .raise (conflictError "the other client has no trajectory")

/-- The commit comes between the two steps of the trajectory. -/
def overtaken : List Bool := true :: List.replicate 30 false ++ [true]

/-- **A trajectory that was overtaken**: it lists no Act, and says that the Command is
committed. -/
theorem trajectory_snapshot_overtaken : ∃ T first last U,
    (exec (Postgres.handle Sample.libraries) watched overtaken).rest true = .ret T ∧
      T.owned = [] ∧ T.status = "committed" ∧ Made overtaken first true ∧
      Made overtaken last true ∧ first <+: last ∧
      (trajectory createdCommand).run (Postgres.handle Sample.libraries)
          (exec (Postgres.handle Sample.libraries) watched first).state =
        (.ok U, (exec (Postgres.handle Sample.libraries) watched first).state) ∧
      T = { U with status := (LifecycleService.project createdCommand
        ((exec (Postgres.handle Sample.libraries) watched last).state.getActsForCommand
          createdCommand)).status } := by
  have heval : returned? ((exec (Postgres.handle Sample.libraries) watched overtaken).rest true) =
      some ⟨createdCommand, [], [], "committed"⟩ := by
    decide +kernel
  have hlinked : watched.state.ChainsKnown := by
    intro a ha link hlink
    rw [List.mem_singleton.mp ha] at hlink
    cases hlink
  obtain ⟨first, last, U, hfirst, hlast, hpre, hrun, hT⟩ := trajectory_snapshot Sample.libraries
    createdCommand watched Sample.constraints_database defined_database hlinked true rfl overtaken
    _ (returned?_eq_some heval)
  exact ⟨_, first, last, U, returned?_eq_some heval, rfl, rfl, hfirst, hlast, hpre, hrun, hT⟩

end Trajectory

/-! ### An explanation -/

/-- **What an Act refers to is stored.** -/
def Referenced (db : Postgres) (a : Act) : Prop :=
  ∀ x, x = a.commandHash ∨ x = a.contextHash ∨ x = a.payloadHash → ∃ r, db.getObject x = some r

/-- What the Act of this hash refers to is stored, if there is such an Act. -/
def Cited (actHash : Hash) (db : Postgres) : Prop :=
  ∀ a ∈ db.acts, a.hash = actHash → Referenced db a

theorem getObject_later (hst : Postgres.Grown s t) {x : Hash} {r : ObjectRecord}
    (hx : s.getObject x = some r) : t.getObject x = some r := by
  rw [Postgres.getObject, Option.map_eq_some_iff] at hx ⊢
  obtain ⟨found, hfound, heq⟩ := hx
  exact ⟨found, Dict.get?_of_le hst.objects hfound, heq⟩

theorem Referenced.later {a : Act} (h : Referenced s a) (hst : Postgres.Grown s t) :
    Referenced t a := by
  intro x hx
  obtain ⟨r, hr⟩ := h x hx
  exact ⟨r, getObject_later hst hr⟩

/-- **A commit that comes after what the Act refers to.** -/
def AfterObjects (db : Postgres) : LedgerOp → Prop
  | .commitAct act _ _ =>
      (∃ r, db.getObject act.commandHash = some r) ∧ ∃ r, db.getObject act.contextHash = some r
  | _ => True

theorem afterObjects_of_isPlain {o : LedgerOp} (ho : o.IsPlain) (db : Postgres) :
    AfterObjects db o := by
  cases o with
  | commitAct act canon commandType => exact ho.elim
  | _ => trivial

/-- **What keeps an Act explained**: nobody commits an Act before its objects. -/
def citing (P : Primitives) (actHash : Hash) : Discipline (Postgres.handle P) ι where
  inv db := db.Constraints ∧ Cited actHash db
  rely := Postgres.Grown
  allowed _ _ _ := True
  good _ db o := AfterObjects db o
  refl := Postgres.Grown.refl
  trans := Postgres.Grown.trans
  keeps _ s o hinv _ hgood := by
    have hgrown := Postgres.grown_handle P o s
    refine ⟨⟨hinv.1.handle o, fun a ha hhash => ?_⟩, hgrown⟩
    rcases Postgres.handle_cases P o s with ⟨act, canon, commandType, rfl, hinserted⟩ | hkept
    · rw [hinserted.acts, List.mem_append, List.mem_singleton] at ha
      rcases ha with ha | rfl
      · exact (hinv.2 a ha hhash).later hgrown
      · obtain ⟨found, hfound⟩ := hinserted.payload
        have hpayload : ∃ r, s.getObject a.payloadHash = some r :=
          ⟨_, by rw [Postgres.getObject, hfound]; rfl⟩
        refine Referenced.later (fun x hx => ?_) hgrown
        rcases hx with rfl | rfl | rfl
        · exact hgood.1
        · exact hgood.2
        · exact hpayload
    · rw [hkept.acts] at ha
      exact (hinv.2 a ha hhash).later hgrown

section Citing

variable {x : Hash} {i : ι} {α : Type} {c : Submission} {service : AuthorityService}
  {request : ActionRequest} {principal : Option RequestPrincipal} {E : EvaluatedAction}

theorem cites_of_isPlain (o : LedgerOp) (ho : o.IsPlain) (t : Postgres)
    (_ : (citing (ι := ι) P x).inv t) (_ : (citing P x).allowed i t o) :
    (citing P x).good i t o :=
  afterObjects_of_isPlain ho t

/-- A part that admits nothing. -/
theorem cites_plain {p : LedgerM α} (hp : p.Only LedgerOp.IsPlain) :
    Safe (citing P x) i (fun _ _ => True) p s :=
  Safe.of_only hp cites_of_isPlain fun _ _ _ _ => trivial

/-- An object that was stored is there from then on. -/
theorem cites_putObject {h : Hash} {canon : Bytes} {kind : String} :
    Safe (citing P x) i (fun _ t => ∃ r, t.getObject h = some r)
      (LedgerM.putObject h canon kind) s := by
  refine Safe.call fun t _ _ _ => ⟨trivial, fun _ hok u _ hu => ?_⟩
  rcases hput : t.putObject h canon kind with e | t'
  · rw [Postgres.handle, hput] at hok
    cases hok
  · rw [Postgres.handle, hput] at hu
    change Postgres.Grown t' u at hu
    have hstored := Postgres.Steady.get?_of_putObject hput
    exact ⟨_, getObject_later hu (by rw [Postgres.getObject, hstored]; rfl)⟩

/-- **The gate stores the Command and the Context before it places the Act.** -/
theorem cites_gate : Safe (citing P x) i (fun _ _ => True) (CommitGate.commit P c) s := by
  rw [CommitGate.commit_eq]
  refine Safe.bind_only CommitGate.only_head
    (fun o ho => cites_of_isPlain o ho.isRead.isPlain) fun found s _ _ => ?_
  rcases found with act | ⟨value, actHash, commandHash, contextHash⟩
  · exact Safe.pure fun _ _ _ => trivial
  rw [CommitGate.tail, CommitGate.write]
  refine Safe.bind_ofExcept fun commandCanon _ => Safe.bind ?_
  refine cites_putObject.imp fun _ t _ _ hcommand => Safe.bind_ofExcept fun contextCanon _ =>
    Safe.bind ?_
  refine cites_putObject.imp fun _ u _ htu hcontext => Safe.mapError ?_ _
  refine Safe.bind_ofExcept fun canon _ => ?_
  refine Safe.call fun v _ huv _ => ⟨⟨?_, ?_⟩, fun _ _ _ _ _ => trivial⟩
  · obtain ⟨r, hr⟩ := hcommand
    exact ⟨r, getObject_later (htu.trans huv) hr⟩
  · obtain ⟨r, hr⟩ := hcontext
    exact ⟨r, getObject_later huv hr⟩

theorem cites_commit : Safe (citing P x) i (fun _ _ => True)
    (AuthorityService.commit P service request principal) s := by
  have hend : ∀ E s, Safe (citing P x) i (fun _ _ => True)
      (AuthorityService.commitEvaluated P request E) s := by
    intro E s
    refine Safe.bind_only (φ := LedgerOp.IsPlain) (.call trivial) cites_of_isPlain
      fun _ s _ _ => Safe.bind_raiseWhen fun _ => ?_
    refine Safe.bind_only (AuthorityService.only_storePayload _) cites_of_isPlain
      fun _ s _ _ => Safe.bind (cites_gate.imp fun act t _ _ _ => ?_)
    split
    · exact Safe.pure fun _ _ _ => trivial
    · exact Safe.pure fun _ _ _ => trivial
  refine Safe.bind_only (AuthorityService.only_evaluate _ _)
    (fun o ho => cites_of_isPlain o ho.isPlain) fun E s _ _ => Safe.bind_raiseWhen fun _ => ?_
  split
  · refine Safe.bind_only (AuthorityService.only_settledConsequence E)
      (fun o ho => cites_of_isPlain o ho.isPlain) fun settled s _ _ => ?_
    rcases settled with _ | result
    · exact hend E s
    · exact Safe.pure fun _ _ _ => trivial
  · exact hend E s

/-- **Every door** leads through the same gate. -/
theorem cites_serve (door : Doors.Door) : Safe (citing P x) i (fun _ _ => True)
    (door.serve P service request principal) s := by
  cases door with
  | commit => exact cites_commit
  | review => exact Safe.bind_ofExcept fun _ _ => cites_commit
  | observation => exact Safe.bind_ofExcept fun _ _ => cites_commit
  | principal op =>
    refine Safe.bind_ofExcept fun payload _ => Safe.bind (cites_commit.imp fun result t _ _ _ => ?_)
    have hproject : Safe (citing P x) i (fun _ _ => True) (op.project payload result.2) t := by
      cases op with
      | link => exact Safe.call fun _ _ _ _ => ⟨trivial, fun _ _ _ _ _ => trivial⟩
      | revoke => exact Safe.call fun _ _ _ _ => ⟨trivial, fun _ _ _ _ _ => trivial⟩
    exact Safe.bind (hproject.imp fun _ _ _ _ _ => Safe.pure fun _ _ _ => trivial)

end Citing

section Explanations

open ExplainService

/-- **What a client is there for**: it passes through a door, or has an Act explained. -/
inductive Errand where
  | visit (v : Doors.Visit)
  | explain (actHash : Hash)

/-- What a client runs. -/
def Errand.run (P : Primitives) (service : AuthorityService) :
    Errand → LedgerM ((EvaluatedAction × Act) ⊕ Explanation)
  | visit v => do
      let result ← v.door.serve P service v.call.request v.call.principal
      return .inl result
  | explain actHash => do
      let explanation ← action P actHash
      return .inr explanation

/-- To have an Act explained is to read. -/
theorem Errand.only_explain {P : Primitives} {service : AuthorityService} (actHash : Hash) :
    ((Errand.explain actHash).run P service).Only LedgerOp.IsRead := by
  refine .bind ?_ fun _ => .pure _
  rw [action]
  refine .bind (.call trivial) fun found => ?_
  rcases found with _ | a
  · exact .raise _
  · exact .bind (.call trivial) fun _ => .bind (.call trivial) fun _ =>
      .bind (.call trivial) fun _ => .pure _

/-- A database and its clients. -/
def attending (P : Primitives) (service : AuthorityService) (db : Postgres) (errands : ι → Errand) :
    Config LedgerOp.Ret Raised Postgres ι ((EvaluatedAction × Act) ⊕ Explanation) where
  state := db
  rest i := (errands i).run P service

variable {service : AuthorityService} {i : ι} {x actHash : Hash} {β : Type}

/-- **The last moment**, as a client that explains an Act looks at it. -/
def lately (actHash : Hash) (u : Postgres) : Moment LedgerOp Postgres where
  state := u
  window t := Postgres.Steady t u
  allowed t _ := Cited actHash t
  other _ := False

/-- A stored object is read as it will be read then. -/
theorem bind_getObject {r : ObjectRecord} {f : Option ObjectRecord → LedgerM β}
    (hx : s.getObject x = some r)
    (hf : ∀ t, Postgres.Grown s t → Firm (Postgres.drift P) (lately actHash u) (fun _ => False)
      (fun _ _ => True) (f (some r)) t) :
    Firm (Postgres.drift P) (lately actHash u) (fun _ => False) (fun _ _ => True)
      (LedgerM.getObject x >>= f) s := by
  refine Firm.bind_call fun t _ hst _ hwindow found hfound => ?_
  change Postgres.Steady t u at hwindow
  have ht := getObject_later hst.toGrown hx
  cases hfound
  rw [ht]
  refine Or.inr ⟨some r, ?_, rfl, hf t hst.toGrown⟩
  change Postgres.handle P (.getObject x) u = _
  rw [Postgres.handle, getObject_later hwindow.toGrown ht]
  rfl

/-- The explanation of an Act, from the rows of a database. -/
theorem run_action_postgres {a : Act} (ha : u.getAct actHash = some a) :
    (action P actHash).run (Postgres.handle P) u = (.ok {
        act := actToDict a
        command := decode P (u.getObject a.commandHash)
        context := decode P (u.getObject a.contextHash)
        payload := decode P (u.getObject a.payloadHash) }, u) := by
  have hget : (getAct actHash).run (Postgres.handle P) u = (.ok (some a), u) := by
    rw [← ha]
    rfl
  rw [action, run_bind_of_eq hget]
  rfl

/-- **An explanation** is what it will be at the last moment. -/
theorem firm_explain : Firm (Postgres.drift P) (lately actHash u) (fun _ => False)
    (fun _ _ => True) ((Errand.explain actHash).run P service) s := by
  rw [Errand.run, action, LawfulMonad.bind_assoc]
  refine Firm.bind_call fun t _ _ hallowed hwindow found hfound => ?_
  change Postgres.Steady t u at hwindow
  cases hfound
  rcases hget : t.getAct actHash with _ | a
  · exact Or.inl trivial
  have hmem := Postgres.getAct_eq_some hget
  have href := hallowed a hmem.1 hmem.2
  refine Or.inr ⟨some a, ?_, rfl, ?_⟩
  · change Postgres.handle P (.getAct actHash) u = _
    rw [Postgres.handle, getAct_later hwindow ⟨a, hmem⟩, hget]
    rfl
  · dsimp only
    obtain ⟨command, hcommand⟩ := href a.commandHash (Or.inl rfl)
    obtain ⟨context, hcontext⟩ := href a.contextHash (Or.inr (Or.inl rfl))
    obtain ⟨payload, hpayload⟩ := href a.payloadHash (Or.inr (Or.inr rfl))
    simp only [LawfulMonad.bind_assoc]
    refine bind_getObject hcommand fun v hv => bind_getObject (getObject_later hv hcontext)
      fun w hw => bind_getObject (getObject_later (hv.trans hw) hpayload) fun _ _ => ?_
    exact Firm.pure fun _ _ _ => trivial

variable [DecidableEq ι]

/-- **An Act has one explanation.** Any number of clients pass through the doors of the
service and have Acts explained, in any interleaving. An Act that was in history at the start
has its Command, its Context and its payload stored there: the database does not see to that.
Whenever a client is told an explanation, it is the explanation the Act has in the end: the Act
is in history, and its Command, its Context and its payload are stored. -/
theorem explanation_permanent (P : Primitives) (service : AuthorityService) (db : Postgres)
    (hdb : db.Constraints) (hdefined : db.Defined) (errands : ι → Errand) (schedule : List ι)
    (i : ι) (actHash : Hash) (hcited : Cited actHash db) (hi : errands i = .explain actHash)
    (X : Explanation) (hret : (exec (Postgres.handle P) (attending P service db errands)
      schedule).rest i = .ret (.inr X)) :
    (action P actHash).run (Postgres.handle P)
        (exec (Postgres.handle P) (attending P service db errands) schedule).state =
      (.ok X, (exec (Postgres.handle P) (attending P service db errands) schedule).state) ∧
    ∃ a command context payload,
      a ∈ (exec (Postgres.handle P) (attending P service db errands) schedule).state.acts ∧
      a.hash = actHash ∧
      (exec (Postgres.handle P) (attending P service db errands) schedule).state.getObject
        a.commandHash = some command ∧
      (exec (Postgres.handle P) (attending P service db errands) schedule).state.getObject
        a.contextHash = some context ∧
      (exec (Postgres.handle P) (attending P service db errands) schedule).state.getObject
        a.payloadHash = some payload ∧
      X = ⟨actToDict a, decode P (some command), decode P (some context),
        decode P (some payload)⟩ := by
  set c := attending P service db errands
  have hsafe : ∀ j, Safe (citing P actHash) j (fun _ _ => True) (c.rest j) db := by
    intro j
    change Safe (citing P actHash) j _ ((errands j).run P service) db
    rcases errands j with v | y
    · exact Safe.bind ((cites_serve v.door).imp fun _ _ _ _ _ => Safe.pure fun _ _ _ => trivial)
    · exact cites_plain ((Errand.only_explain y).mono fun _ => LedgerOp.IsRead.isPlain)
  have hkept : ∀ before, (citing P actHash).inv (exec (Postgres.handle P) c before).state :=
    fun before => (exec_safe (D := citing P actHash) ⟨hdb, hcited⟩ hsafe
      fun _ _ _ _ _ => trivial).1
  have hinv : (Postgres.drift P).inv c.state := ⟨hdb, hdefined⟩
  set u := (exec (Postgres.handle P) c schedule).state with hu
  have hfirm := exec_firm (M := lately actHash u) (Q := fun _ _ => True) (B := fun _ => False)
    (i := i) hinv (by change Firm _ _ _ _ ((errands i).run P service) _; rw [hi]
                      exact firm_explain) fun before hmade o _ => ⟨(hkept before).2, by
      have hlast : exec (Postgres.handle P) c (before ++ [i]) =
          next (Postgres.handle P) (exec (Postgres.handle P) c before) i := exec_concat
      rw [← hlast]
      exact exec_rely (Postgres.drift P) hinv hmade⟩
  rw [hret] at hfirm
  rcases hfirm with hmissed | ⟨-, hrun⟩
  · exact hmissed.elim
  have haction : (action P actHash).run (Postgres.handle P) u = (.ok X, u) := by
    change ((errands i).run P service).run (Postgres.handle P) u = _ at hrun
    rw [hi, Errand.run, run_ret] at hrun
    obtain ⟨Y, t, hY, hend⟩ := run_bind_ok.mp hrun
    cases hend
    exact hY
  refine ⟨haction, ?_⟩
  rcases hget : u.getAct actHash with _ | a
  · have hnone : (getAct actHash).run (Postgres.handle P) u = (.ok none, u) := by
      rw [← hget]
      rfl
    rw [action, run_bind_of_eq hnone] at haction
    cases haction
  · have hmem := Postgres.getAct_eq_some hget
    have href := (hkept schedule).2 a hmem.1 hmem.2
    obtain ⟨command, hcommand⟩ := href a.commandHash (Or.inl rfl)
    obtain ⟨context, hcontext⟩ := href a.contextHash (Or.inr (Or.inl rfl))
    obtain ⟨payload, hpayload⟩ := href a.payloadHash (Or.inr (Or.inr rfl))
    rw [run_action_postgres hget, hcommand, hcontext, hpayload] at haction
    cases haction
    exact ⟨a, command, context, payload, hmem.1, hmem.2, hcommand, hcontext, hpayload, rfl⟩

/-- The Act that the request for a thing becomes. -/
def createdHash : Hash := "eb3a" ++ Sample.pad

/-- One client creates a thing, and the other has the Act explained. -/
def curious : Bool → Errand
  | true => .explain createdHash
  | false => .visit ⟨.commit, ⟨Sample.createThing, none⟩⟩

/-- The thing is created, and then explained. -/
theorem explanation_permanent_thing : ∃ (X : Explanation) (a : Act) (payload : ObjectRecord),
    (exec (Postgres.handle Sample.libraries) (attending Sample.libraries
      Sample.standingAuthority Sample.database curious)
      (List.replicate 30 false ++ List.replicate 4 true)).rest true =
        .ret (.inr X) ∧ a.hash = createdHash ∧
      X.payload = decode Sample.libraries (some payload) := by
  have heval : (returned? ((exec (Postgres.handle Sample.libraries) (attending Sample.libraries
      Sample.standingAuthority Sample.database curious)
      (List.replicate 30 false ++ List.replicate 4 true)).rest true)).any Sum.isRight = true := by
    decide +kernel
  obtain ⟨result, hresult, hright⟩ := (Option.any_eq_true _ _).mp heval
  obtain ⟨X, rfl⟩ := Sum.isRight_iff.mp hright
  have hcited : Cited createdHash Sample.database := by
    intro a ha hhash
    rw [List.mem_singleton.mp ha] at hhash
    exact absurd hhash (by decide +kernel)
  obtain ⟨-, a, _, _, payload, -, hhash, -, -, -, hX⟩ := explanation_permanent Sample.libraries
    Sample.standingAuthority Sample.database Sample.constraints_database defined_database curious
    (List.replicate 30 false ++ List.replicate 4 true) true createdHash hcited rfl X
    (returned?_eq_some hresult)
  exact ⟨X, a, payload, returned?_eq_some hresult, hhash, by rw [hX]⟩

end Explanations

end Clients

end PowerfarmKernel
