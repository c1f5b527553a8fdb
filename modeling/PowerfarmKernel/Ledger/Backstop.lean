import PowerfarmKernel.Ledger.CommitAct
import PowerfarmKernel.Service.Sample

/-!
# The database as the last line of defence

Whatever a worker passes to `powerfarm_internal.commit_act`, nulls and malformed trees
among it, the rows that a run of calls adds are built on the rows before them, and no
Command is settled twice (`PowerfarmKernel.Tables.backstop`). Of the rows the tables start
with only their keys are asked for (`PowerfarmKernel.Tables.Constraints`).
-/

namespace PowerfarmKernel

open Sql

namespace Tables

variable {db t : Tables} {p : CommitArgs} {row : ActRow} {calls pre : List CommitArgs}

/-! ### Runs of calls -/

/-- **What the indexes of `acts` promise.** -/
structure Constraints (db : Tables) : Prop where
  /-- `acts_hash_key`. -/
  actsHash : (db.acts.map ActRow.hash).Nodup
  /-- `acts_one_consequence_per_command_idx`. -/
  oneConsequence : ((db.acts.filter (·.IsConsequential)).map ActRow.commandHash).Nodup

/-- **What one call does to `acts`**: it inserts one row, or none. -/
theorem call_cases (db : Tables) (p : CommitArgs) :
    (db.call p).2.acts = db.acts ∨ ∃ row, Inserted db (db.call p).2 p row := by
  rcases hcall : db.call p with ⟨e | row, t⟩
  · have hkept := call_error (congrArg Prod.fst hcall)
    rw [hcall] at hkept
    exact Or.inl (congrArg acts hkept)
  · rcases call_ok hcall with ⟨-, rfl⟩ | hinserted
    · exact Or.inl rfl
    · exact Or.inr ⟨row, hinserted⟩

theorem Constraints.inserted (hc : Constraints db) (h : Inserted db t p row) : Constraints t := by
  constructor
  · rw [h.acts]
    exact List.nodup_map_concat hc.actsHash h.fresh
  · rw [h.acts]
    refine List.nodup_map_filter_concat hc.oneConsequence fun hcons a ha hcons' => ?_
    exact h.unsettled (of_decide_eq_true hcons) a ha (of_decide_eq_true hcons')

/-- Every call keeps what the indexes promise. -/
theorem Constraints.call (hc : Constraints db) (p : CommitArgs) : Constraints (db.call p).2 := by
  rcases call_cases db p with hacts | ⟨row, hinserted⟩
  · constructor
    · rw [hacts]
      exact hc.actsHash
    · rw [hacts]
      exact hc.oneConsequence
  · exact hc.inserted hinserted

theorem Constraints.exec (hc : Constraints db) (calls : List CommitArgs) :
    Constraints (db.exec calls) :=
  Runs.exec_inv (fun _ p hs => hs.call p) hc calls

/-- **A hash that stands in `acts` is answered with its row.** -/
theorem Constraints.call_existing (hc : Constraints db) (hrow : row ∈ db.acts)
    (hp : p.actHash = some row.hash) : db.call p = (.ok row, db) := by
  have hfound : db.existing p.actHash = some row := by
    rw [existing, hp]
    rcases hfind : db.acts.find? fun a => (equals (some a.hash) (some row.hash)).Holds with _ | a
    · have hnone := List.find?_eq_none.mp hfind row hrow
      simp at hnone
    · obtain ⟨ha, hhash⟩ := existing_eq_some (p := p) (by rw [existing, hp]; exact hfind)
      rw [hp, Option.some_inj] at hhash
      exact hfind.trans (congrArg some (List.inj_on_of_nodup_map hc.actsHash ha hrow hhash.symm))
  exact call_of_existing hfound

/-! ### The backstop -/

/-- **What the database guarantees over a run of calls.** -/
structure Backstopped (db : Tables) (calls : List CommitArgs) : Prop where
  /-- No row is lost. -/
  kept : db.acts <+: (db.exec calls).acts
  /-- A row the run inserted is built on the rows before it. -/
  builtOn : ∀ before row after, (db.exec calls).acts = before ++ row :: after →
    db.acts <+: before → BuiltOn before row
  /-- A Command has one consequence at most. -/
  oneConsequence : (((db.exec calls).acts.filter (·.IsConsequential)).map ActRow.commandHash).Nodup
  /-- A call that raises changes neither the Acts nor the objects. -/
  raised : ∀ pre p e, Runs.Made calls pre p → ((db.exec pre).call p).1 = .error e →
    ((db.exec pre).call p).2.acts = (db.exec pre).acts ∧
      ((db.exec pre).call p).2.objects = (db.exec pre).objects
  /-- A call with the hash of a row returns the row and inserts nothing. -/
  replayed : ∀ pre p row, Runs.Made calls pre p → row ∈ (db.exec pre).acts →
    p.actHash = some row.hash → (db.exec pre).call p = (.ok row, db.exec pre)

/-- No row is lost in one call. -/
theorem acts_prefix (db : Tables) (p : CommitArgs) : db.acts <+: (db.call p).2.acts := by
  rcases call_cases db p with hacts | ⟨row, hinserted⟩
  · rw [hacts]
  · rw [hinserted.acts]
    exact List.prefix_append _ _

theorem acts_prefix_exec (db : Tables) (calls : List CommitArgs) :
    db.acts <+: (db.exec calls).acts :=
  Runs.exec_rel (R := fun s t : Tables => s.acts <+: t.acts) (fun _ => List.prefix_rfl)
    (fun h h' => h.trans h') acts_prefix (List.nil_prefix (l := calls))

/-- **Every row a run inserts is built on the rows before it.** -/
theorem builtOn_exec (db : Tables) (calls : List CommitArgs) : ∀ before row after,
    (db.exec calls).acts = before ++ row :: after → db.acts <+: before → BuiltOn before row := by
  induction calls using List.reverseRecOn with
  | nil =>
    intro before row after hacts hpre
    -- Nothing was inserted yet.
    have hlen := hpre.length_le
    rw [exec_nil] at hacts
    rw [hacts, List.length_append, List.length_cons] at hlen
    omega
  | append_singleton calls p ih =>
    intro before row after hacts hpre
    rw [exec_concat] at hacts
    rcases call_cases (db.exec calls) p with hkept | ⟨r, hinserted⟩
    · rw [hkept] at hacts
      exact ih before row after hacts hpre
    · rw [hinserted.acts] at hacts
      rcases List.eq_nil_or_concat after with rfl | ⟨after, last, rfl⟩
      · obtain ⟨hbefore, hrow⟩ := List.append_inj' hacts rfl
        rw [← hbefore, ← List.singleton_inj.mp hrow]
        exact hinserted.builtOn
      · rw [List.concat_eq_append, ← List.cons_append, ← List.append_assoc] at hacts
        exact ih before row after (List.append_inj' hacts rfl).1 hpre

/-- **The backstop.** -/
theorem backstop (h : Constraints db) (calls : List CommitArgs) : Backstopped db calls where
  kept := acts_prefix_exec db calls
  builtOn := builtOn_exec db calls
  oneConsequence := (h.exec calls).oneConsequence
  raised pre p e _ hraised := by
    rw [call_error hraised]
    exact ⟨rfl, rfl⟩
  replayed pre p row _ hrow hp := (h.exec pre).call_existing hrow hp

end Tables

/-! ### An example -/

namespace Sample

/-- The row of the genesis Act. -/
def genesisRow : ActRow where
  hash := genesisHash pad
  actType := "GenesisClosed"
  commandType := none
  identityHash := genesisHash pad
  parents := .strings []
  decisionCut := .strings []
  commandHash := "genesis-command"
  authChain := .strings []
  registryCut := .strings []
  ruleHashes := none
  contextHash := genesisHash pad
  payloadHash := genesisHash pad
  claimedWhen := none

/-- The tables after genesis. -/
def tables : Tables where
  objects := database.objects
  acts := [genesisRow]
  registry := database.registry
  identities := database.identities

/-- The call that commits a thing. -/
def commitThing : CommitArgs := .ofAct thing [1] "CreateThing"

/-- The same call for another Act of that Command, its decision cut null. -/
def commitBlindly : CommitArgs :=
  { CommitArgs.ofAct { thing with hash := "3333" ++ pad } [1] "CreateThing" with
    decisionCut := none }

theorem constraints_tables : Tables.Constraints tables :=
  ⟨List.nodup_singleton _, List.nodup_singleton _⟩

end Sample

/-- A thing is committed once; a call that hides the history it was decided on gets by the
check of that history, and is refused all the same. -/
theorem Tables.backstop_thing :
    (Sample.tables.exec [Sample.commitThing, Sample.commitBlindly, Sample.commitThing]).acts.map
        ActRow.hash = [Sample.genesisHash Sample.pad, Sample.thing.hash] ∧
      Backstopped Sample.tables [Sample.commitThing, Sample.commitBlindly, Sample.commitThing] :=
  ⟨by decide +kernel, backstop Sample.constraints_tables _⟩

end PowerfarmKernel
