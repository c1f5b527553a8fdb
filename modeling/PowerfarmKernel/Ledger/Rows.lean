import PowerfarmKernel.Kernel.Types
import PowerfarmKernel.Lib.Sql

/-!
# The row of an Act

`public.acts` keeps an Act as a row: texts, and arrays as `jsonb`. An Act leaves Python as
the arguments of `powerfarm_internal.commit_act` (`PowerfarmKernel.CommitArgs.ofAct`), which
that function copies into the row it inserts and returns (`PowerfarmKernel.CommitArgs.row`),
and comes back through `_row_to_act` (`PowerfarmKernel.rowToAct`). A set is sorted on the
way out and rebuilt on the way back. `PowerfarmKernel.rowToAct_row` says that an Act survives
the way.
-/

namespace PowerfarmKernel

open Sql

/-- A row of `acts`. The number the table gives it is left out. -/
structure ActRow where
  hash : Hash
  actType : String
  /-- A row older than the column has none. -/
  commandType : Option String
  identityHash : Hash
  parents : Jsonb
  decisionCut : Jsonb
  commandHash : Hash
  authChain : Jsonb
  registryCut : Jsonb
  /-- The column may be null. -/
  ruleHashes : Option Jsonb
  contextHash : Hash
  payloadHash : Hash
  claimedWhen : Option String

/-- The arguments of `powerfarm_internal.commit_act`, any of which may be null. -/
structure CommitArgs where
  actHash : Option Hash
  actCanon : Option Bytes
  actType : Option String
  commandType : Option String
  identityHash : Option Hash
  parents : Option Jsonb
  decisionCut : Option Jsonb
  commandHash : Option Hash
  authChain : Option Jsonb
  registryCut : Option Jsonb
  ruleHashes : Option Jsonb
  contextHash : Option Hash
  payloadHash : Option Hash
  claimedWhen : Option String

/-- The arguments `PostgresStore.commit_act` passes. -/
def CommitArgs.ofAct (act : Act) (canon : Bytes) (commandType : String) : CommitArgs where
  actHash := some act.hash
  actCanon := some canon
  actType := some act.actType
  commandType := some commandType
  identityHash := some act.identityHash
  parents := some (.strings act.parents)
  decisionCut := some (.strings (sorted act.decisionCut))
  commandHash := some act.commandHash
  authChain := some (.strings act.authChain)
  registryCut := some (.strings (sorted act.registryCut))
  ruleHashes := some (.strings act.ruleHashes)
  contextHash := some act.contextHash
  payloadHash := some act.payloadHash
  claimedWhen := act.claimedWhen

/-- The row the arguments are inserted as, unless one of them is null in a column that may
not be. -/
def CommitArgs.row (p : CommitArgs) : Option ActRow := do
  return {
    hash := ← p.actHash
    actType := ← p.actType
    commandType := p.commandType
    identityHash := ← p.identityHash
    parents := ← p.parents
    decisionCut := ← p.decisionCut
    commandHash := ← p.commandHash
    authChain := ← p.authChain
    registryCut := ← p.registryCut
    ruleHashes := p.ruleHashes
    contextHash := ← p.contextHash
    payloadHash := ← p.payloadHash
    claimedWhen := p.claimedWhen }

/-- **The row of the arguments is made of them**, column by column. -/
theorem CommitArgs.eq_of_row {p : CommitArgs} {row : ActRow} (h : p.row = some row) :
    p = {
      actHash := some row.hash
      actCanon := p.actCanon
      actType := some row.actType
      commandType := row.commandType
      identityHash := some row.identityHash
      parents := some row.parents
      decisionCut := some row.decisionCut
      commandHash := some row.commandHash
      authChain := some row.authChain
      registryCut := some row.registryCut
      ruleHashes := row.ruleHashes
      contextHash := some row.contextHash
      payloadHash := some row.payloadHash
      claimedWhen := row.claimedWhen } := by
  simp only [CommitArgs.row, Option.bind_eq_bind, Option.bind_eq_some_iff, Option.pure_def,
    Option.some_inj] at h
  obtain ⟨hash, h1, actType, h2, identityHash, h3, parents, h4, decisionCut, h5, commandHash, h6,
    authChain, h7, registryCut, h8, contextHash, h9, payloadHash, h10, rfl⟩ := h
  cases p
  simp_all

/-- The string an item of an array is. -/
def itemText : Jsonb → Except Raised String
  | .string s => .ok s
  | _ => .error ⟨.typeError, "a hash array holds strings"⟩

/-- An array column, read back. -/
def readArray : Option Jsonb → Except Raised (List String)
  | some (.array items) => items.mapM itemText
  | _ => .error ⟨.typeError, "a hash array is an array"⟩

/-- `_row_to_act`. -/
def rowToAct (row : ActRow) : Except Raised Act := do
  let parents ← readArray (some row.parents)
  let decisionCut ← readArray (some row.decisionCut)
  let authChain ← readArray (some row.authChain)
  let registryCut ← readArray (some row.registryCut)
  let ruleHashes ← readArray row.ruleHashes
  return {
    hash := row.hash
    actType := row.actType
    identityHash := row.identityHash
    parents := parents
    decisionCut := decisionCut.toFinset
    commandHash := row.commandHash
    authChain := authChain
    registryCut := registryCut.toFinset
    ruleHashes := ruleHashes
    contextHash := row.contextHash
    payloadHash := row.payloadHash
    claimedWhen := row.claimedWhen }

/-! ### The way out and back -/

theorem readArray_strings (l : List String) : readArray (some (.strings l)) = .ok l := by
  change (l.map Jsonb.string).mapM itemText = .ok l
  induction l with
  | nil => rfl
  | cons s l ih =>
    rw [List.map_cons, List.mapM_cons, ih]
    rfl

/-- Sorting a set and collecting it again gives the set. -/
theorem toFinset_sorted (cut : Cut) : (sorted cut).toFinset = cut := by
  ext h
  rw [List.mem_toFinset, mem_sorted]

/-- **An Act survives the way to its row and back**, in every field. -/
theorem rowToAct_row (act : Act) (canon : Bytes) (commandType : String) : ∃ row,
    (CommitArgs.ofAct act canon commandType).row = some row ∧ rowToAct row = .ok act := by
  refine ⟨_, rfl, ?_⟩
  simp only [CommitArgs.ofAct, rowToAct, readArray_strings]
  change Except.ok { act with
    decisionCut := (sorted act.decisionCut).toFinset
    registryCut := (sorted act.registryCut).toFinset } = Except.ok act
  rw [toFinset_sorted, toFinset_sorted]

end PowerfarmKernel
