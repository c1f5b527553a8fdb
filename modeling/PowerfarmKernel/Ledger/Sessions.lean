import PowerfarmKernel.Ledger.Grants
import PowerfarmKernel.Ledger.Ruled

/-!
# What sessions can do to the ledger

Clients need not go through the service: whoever has a connection can send any statement. Each
statement is here a transaction of its own, at the level `READ COMMITTED`, as it is on a connection
that opens no transaction and sets no level. What it then does is a matter of rights. The
migrations give no role of the platform a right to write the tables of the ledger
(`PowerfarmKernel.Grants.not_may_write`), and only the worker the right to call `commit_act`, which
writes with the rights of its owner.

So whatever statements sessions of these roles send, in whatever order, the tables of the ledger
are those that the worker's calls of `commit_act` leave, and every new row has passed the checks of
that function (`PowerfarmKernel.Grants.only_calls_write`). Owners and superusers are outside.
-/

namespace PowerfarmKernel

open Runs

open Postgres (refuse_bind_ok bind_ok)

open Sql (Jsonb)

namespace Tables

variable {db s t u : Tables} {p : CommitArgs} {row : ActRow} {calls : List CommitArgs}

/-! ### What calls keep -/

/-- **What calls can do to the tables.** -/
structure Grows (s t : Tables) : Prop where
  acts : s.acts <+: t.acts
  objects : s.objects ≤ t.objects
  registry : t.registry = s.registry
  identities : t.identities = s.identities

theorem Grows.refl (s : Tables) : Grows s s := ⟨List.prefix_rfl, le_refl _, rfl, rfl⟩

theorem Grows.trans (h : Grows s t) (h' : Grows t u) : Grows s u :=
  ⟨h.acts.trans h'.acts, h.objects.trans h'.objects, h'.registry.trans h.registry,
    h'.identities.trans h.identities⟩

theorem grows_storeObject (h : db.storeObject p = .ok t) : Grows db t := by
  rw [storeObject] at h
  split at h
  · split at h
    · cases h
    · split at h
      · cases h
        exact Grows.refl db
      · rename_i hfree
        cases h
        refine ⟨List.prefix_rfl, Dict.le_set fun w hw => ?_, rfl, rfl⟩
        rw [hfree] at hw
        cases hw
  · cases h

/-- **One call.** -/
theorem grows_call (db : Tables) (p : CommitArgs) : Grows db (db.call p).2 := by
  rcases hfound : db.existing p.actHash with _ | found
  · rw [call_of_new hfound]
    rcases hinsertion : db.insertion p with e | ⟨row, t⟩
    · exact Grows.refl db
    · rw [insertion] at hinsertion
      obtain ⟨_, -, hinsertion⟩ := bind_ok.mp hinsertion
      obtain ⟨written, hstore, hinsertion⟩ := bind_ok.mp hinsertion
      obtain ⟨-, hinsert⟩ := refuse_bind_ok.mp hinsertion
      obtain ⟨-, -, -, rfl⟩ := insertAct_ok hinsert
      exact (grows_storeObject hstore).trans
        ⟨List.prefix_append _ _, le_refl _, rfl, rfl⟩
  · rw [call_of_existing hfound]
    exact Grows.refl db

theorem grows_exec {earlier : List CommitArgs} (h : earlier <+: calls) :
    Grows (db.exec earlier) (db.exec calls) :=
  Runs.exec_rel Grows.refl Grows.trans grows_call h

/-- What a row rests on is there later too. -/
theorem ListsActs.later {before after : List ActRow} {value : Jsonb}
    (h : ListsActs before value) (hpre : before <+: after) : ListsActs after value := by
  obtain ⟨l, hl, hnodup, hall⟩ := h
  exact ⟨l, hl, hnodup, fun x hx => (hall x hx).imp fun _ ha => ⟨hpre.subset ha.1, ha.2⟩⟩

theorem Grounded.later (h : Grounded s row) (hgrows : Grows s t) : Grounded t row where
  registryCut := h.registryCut.later hgrows.acts
  commandType := by
    obtain ⟨commandType, hrow, hregistered⟩ := h.commandType
    refine ⟨commandType, hrow, ?_⟩
    rw [Registered, hgrows.registry]
    exact hregistered
  actType := by
    rw [Registered, hgrows.registry]
    exact h.actType
  identity := by
    rw [hgrows.identities]
    exact h.identity
  context := by
    obtain ⟨found, hfound⟩ := Option.ne_none_iff_exists'.mp h.context
    rw [Dict.get?_of_le hgrows.objects hfound]
    exact Option.some_ne_none _
  payload := by
    obtain ⟨found, hfound⟩ := Option.ne_none_iff_exists'.mp h.payload
    rw [Dict.get?_of_le hgrows.objects hfound]
    exact Option.some_ne_none _

theorem Ruled.later (h : Ruled s row) (hgrows : Grows s t) : Ruled t row := by
  rw [Ruled, hgrows.registry]
  exact h

end Tables

namespace Grants

open Tables

/-! ### What sessions send -/

/-- The tables of the ledger that `commit_act` writes or checks. -/
def ledgerTables : List Table := [.objects, .acts, .registry, .identities]

/-- What changes the rows of a table. -/
def writing : List Action := [.insert, .update, .delete, .truncate]

/-- **What a session sends**, in a transaction of its own. -/
inductive Sent where
  /-- A statement over tables, with what it does to each of them. What it would do to the rows
  of the ledger is left open. -/
  | statement (uses : List (Table × Action)) (effect : Tables → Tables) : Sent
  /-- A call of `powerfarm_internal.commit_act`. -/
  | call (p : CommitArgs) : Sent

/-- **The tables after a session of some roles has sent something**, and it was committed at once.
A statement is refused as a whole unless the session may do all of it; one that writes no table of
the ledger leaves the ledger alone. -/
def perform (roles : List Role) (db : Tables) : Sent → Tables
  | .statement uses effect =>
      if (∀ use ∈ uses, catalog.May roles (.table use.1) use.2) ∧
          ∃ use ∈ uses, use.1 ∈ ledgerTables ∧ use.2 ∈ writing then effect db
      else db
  | .call p =>
      if (∀ need ∈ callOf .commitAct, catalog.May roles need.1 need.2) ∧
          .powerfarmWorker ∈ roles then (db.call p).2
      else db

end Grants

end PowerfarmKernel
