import PowerfarmKernel.Ledger.Postgres
import PowerfarmKernel.Ledger.Rows
import PowerfarmKernel.Lib.Runs

/-!
# The commit function of the database

`powerfarm_internal.commit_act` as the database runs it, over rows and over arguments of
which any may be null and any `jsonb` may be no array (`PowerfarmKernel.CommitArgs`). It
does not trust the worker that calls it: it checks what the gate has checked, inserts the
object and the row, and the trigger, the constraints and the indexes of the tables check
again. A guard passes what is unknown, so a null gets by many of the checks and is stopped
further on, at a lookup that finds nothing or at a column that may not be null.

The function is called by members of `powerfarm_worker`, one call after another (it takes
an advisory lock), and each call is one transaction (`PowerfarmKernel.Tables.call`). Its
body may stop when it has already written (`PowerfarmKernel.Tables.commitAct`).

What a call that inserts has checked is `PowerfarmKernel.Tables.Inserted`.
-/

namespace PowerfarmKernel

open Sql

open Postgres (refuse refuse_bind_ok bind_ok)

/-- **The tables the function works on.** -/
structure Tables where
  objects : Dict Hash (Bytes × String)
  /-- The Acts, in the order of `seq`. -/
  acts : List ActRow
  registry : List RegistryRow
  /-- The identities, with their kinds. -/
  identities : Dict Hash String

/-- The row of an Act that is no stage of a trajectory. -/
def ActRow.IsConsequential (row : ActRow) : Prop := row.actType ∉ lifecycleActTypes

instance (row : ActRow) : Decidable row.IsConsequential :=
  inferInstanceAs (Decidable (row.actType ∉ lifecycleActTypes))

namespace Tables

variable (db : Tables)

/-! ### Conditions -/

/-- `value !~ '^[0-9a-f]{64}$'`. -/
def malformedHash (value : Option String) : Truth := value.map fun h => isHash h = false

/-- `jsonb_array_length`. -/
def arrayLength : Option Jsonb → Except Raised (Option ℕ)
  | none => .ok none
  | some value => (value.arrayLength.map some).mapError databaseError

/-- `jsonb_array_elements_text`: no rows from a null. -/
def elementsText : Option Jsonb → Except Raised (List (Option String))
  | none => .ok []
  | some value => value.elementsText.mapError databaseError

/-- `value ? key`. -/
def hasKey (value : Option Jsonb) (key : Option String) : Truth :=
  Option.map₂ Jsonb.hasKey value key

/-- An item of an array is a string, and what it prints between its marks is a hash. -/
def isHashItem (item : Jsonb) : Bool :=
  item.typeof = "string" ∧ isHash (String.ofList (trimBoth quote item.text))

/-- `powerfarm_internal.is_hash_array`, unknown for a null. -/
def isHashArray : Option Jsonb → Truth :=
  Option.map fun
    | .array items => items.all isHashItem ∧
        items.length = (items.filterMap Jsonb.itemText).dedup.length
    | _ => false

/-- One of the five arrays of an Act is malformed. -/
def malformedArrays (p : CommitArgs) : Truth :=
  (isHashArray p.parents).not.or <| (isHashArray p.decisionCut).not.or <|
    (isHashArray p.authChain).not.or <| (isHashArray p.registryCut).not.or
      (isHashArray p.ruleHashes).not

/-- The hash stands in `acts`. -/
def hasAct (actHash : Option Hash) : Bool :=
  db.acts.any fun a => (equals (some a.hash) actHash).Holds

/-- The hash stands in `objects`. -/
def hasObject (objectHash : Option Hash) : Bool := (objectHash.bind db.objects.get?).isSome

/-- The hash stands in `identities`. -/
def hasIdentity (identityHash : Option Hash) : Bool :=
  (identityHash.bind db.identities.get?).isSome

/-- An item of the array is the hash of no Act. -/
def unknownAct (value : Option Jsonb) : Except Raised Bool := do
  let items ← elementsText value
  return items.any fun h => db.hasAct h = false

/-- A name of the registry, born inside the cut. -/
def registeredName (kind : String) (name : Option String) (cut : Option Jsonb) : Bool :=
  db.registry.any fun r => (Truth.and (some (r.kind = kind)) <|
    (equals (some r.name) name).and (hasKey cut (some r.bornAt))).Holds

/-- A Rule of the registry, born inside the cut. -/
def registeredRule (cut : Option Jsonb) (ruleHash : Option Hash) : Bool :=
  db.registry.any fun r => ((equals (some r.hash) ruleHash).and <|
    Truth.and (some (r.kind = "rule")) (hasKey cut (some r.bornAt))).Holds

/-! ### The function -/

/-- The Act with that hash. -/
def existing (actHash : Option Hash) : Option ActRow :=
  db.acts.find? fun a => (equals (some a.hash) actHash).Holds

/-- What is checked of a new Act before anything is written. -/
def checkCommit (p : CommitArgs) : Except Raised Unit := do
  refuse ((malformedHash p.actHash).or <| (malformedHash p.commandHash).or <|
      (malformedHash p.identityHash).or <| (malformedHash p.contextHash).or
        (malformedHash p.payloadHash)).Holds
    "commit contains a malformed content hash"
  refuse (Truth.Holds (p.actCanon.map fun canon => canon = [])) "canonical Act bytes are required"
  refuse (malformedArrays p).Holds "commit contains a malformed hash array"
  let rules ← arrayLength p.ruleHashes
  refuse (Truth.Holds (rules.map fun n => n = 0)) "commit requires at least one Rule"
  refuse (hasKey p.parents p.actHash).Holds "Act cannot be its own parent"
  let listed ← arrayLength p.decisionCut
  refuse (Truth.or (listed.map fun n => db.acts.length ≠ n)
      (some (db.acts.any fun a => (hasKey p.decisionCut (some a.hash)).not.Holds))).Holds
    "history advanced after authorization; reauthorization required"
  refuse (db.hasIdentity p.identityHash = false) "unknown committing Identity"
  refuse (db.hasObject p.contextHash = false) "Context must already exist in CAS"
  refuse (db.hasObject p.payloadHash = false) "payload must already exist in CAS"
  let unknownParent ← db.unknownAct p.parents
  refuse unknownParent "every parent must already exist"
  let unknownRegistered ← db.unknownAct p.registryCut
  refuse unknownRegistered "registry cut references an unknown Act"
  let unknownLink ← db.unknownAct p.authChain
  refuse unknownLink "authorization chain references an unknown Act"
  refuse (db.registeredName "command_type" p.commandType p.registryCut = false)
    "unregistered command type at declared Registry cut"
  refuse (db.registeredName "act_type" p.actType p.registryCut = false)
    "unregistered Act type at declared Registry cut"
  let wanted ← elementsText p.ruleHashes
  refuse (wanted.any fun h => db.registeredRule p.registryCut h = false)
    "Rule not registered at declared Registry cut"

/-- The bytes of the Act are inserted into `objects`; on conflict nothing is done. -/
def storeObject (p : CommitArgs) : Except Raised Tables :=
  match p.actHash, p.actCanon with
  | some actHash, some canon =>
      if isHash actHash = false then
        .error (databaseError "violates check constraint objects_hash_check")
      else match db.objects.get? actHash with
        | some _ => .ok db
        | none => .ok { db with objects := db.objects.set actHash (canon, "act") }
  | _, _ => .error (databaseError "null value in column of relation objects")

/-- The object with that hash is the one the call brings. -/
def stored (p : CommitArgs) : Bool :=
  match p.actHash.bind db.objects.get? with
  | some (canon, kind) => ((equals (some canon) p.actCanon).and (some (kind = "act"))).Holds
  | none => false

/-- `powerfarm_internal.validate_act_insert`: the trigger before a row of `acts` is
inserted. -/
def validateActInsert (p : CommitArgs) : Except Raised Unit := do
  refuse (Truth.or (some p.commandType.isNone) (equals (some "") p.commandType)).Holds
    "Act command_type is required"
  refuse (malformedArrays p).Holds "Act hash arrays are malformed"
  refuse (hasKey p.parents p.actHash).Holds "Act cannot be its own parent"
  let unknownParent ← db.unknownAct p.parents
  refuse unknownParent "every parent must already exist"
  let unknownListed ← db.unknownAct p.decisionCut
  refuse unknownListed "decision cut references an unknown Act"
  let unknownRegistered ← db.unknownAct p.registryCut
  refuse unknownRegistered "registry cut references an unknown Act"
  let unknownLink ← db.unknownAct p.authChain
  refuse unknownLink "authorization chain references an unknown Act"

/-- The `check` constraints of a row of `acts`. -/
def checkRow (row : ActRow) : Except Raised Unit := do
  refuse (row.parents.typeof ≠ "array" ∨ row.decisionCut.typeof ≠ "array" ∨
      row.registryCut.typeof ≠ "array")
    "violates check constraint of an array column"
  refuse (isHash row.hash = false ∨ isHash row.commandHash = false ∨
      isHash row.contextHash = false)
    "violates check constraint of a hash column"
  refuse ((isHashArray (some row.parents)).and <| (isHashArray (some row.decisionCut)).and <|
      (isHashArray (some row.authChain)).and <| (isHashArray (some row.registryCut)).and
        (isHashArray row.ruleHashes)).Fails
    "violates check constraint acts_hash_arrays_valid"

/-- A row is inserted into `acts`, past the trigger, the constraints of its columns, the
unique index over the hashes, the partial one over the consequential Acts, and the foreign
keys. -/
def insertAct (p : CommitArgs) : Except Raised (ActRow × Tables) := do
  db.validateActInsert p
  match p.row with
  | none => .error (databaseError "null value in column of relation acts")
  | some row => do
      checkRow row
      refuse (∃ a ∈ db.acts, a.hash = row.hash) "violates unique constraint acts_hash_key"
      refuse (row.IsConsequential ∧
          ∃ a ∈ db.acts, a.IsConsequential ∧ a.commandHash = row.commandHash)
        "violates unique index acts_one_consequence_per_command_idx"
      refuse (db.hasObject (some row.hash) = false ∨ db.hasObject (some row.payloadHash) = false ∨
          db.hasObject (some row.contextHash) = false)
        "violates foreign key of acts"
      return (row, { db with acts := db.acts ++ [row] })

/-- **The body of `powerfarm_internal.commit_act`**: what it returns or raises, and the
tables as it leaves them. -/
def commitAct (p : CommitArgs) : Except Raised ActRow × Tables :=
  match db.existing p.actHash with
  | some row => (.ok row, db)
  | none =>
      match db.checkCommit p >>= fun _ => db.storeObject p with
      | .error e => (.error e, db)
      | .ok written =>
          match refuse (written.stored p = false) "CAS collision for Act hash" >>= fun _ =>
              written.insertAct p with
          -- The bytes of the Act are written by now.
          | .error e => (.error e, written)
          | .ok (row, inserted) => (.ok row, inserted)

/-- **A call** is one transaction: when it raises, the tables are as they were. -/
def call (p : CommitArgs) : Except Raised ActRow × Tables :=
  match db.commitAct p with
  | (.ok row, t) => (.ok row, t)
  | (.error e, _) => (.error e, db)

/-- **The tables after a list of calls.** -/
abbrev exec (db : Tables) (calls : List CommitArgs) : Tables :=
  Runs.exec (fun s p => (s.call p).2) db calls

variable {db} {t : Tables} {p : CommitArgs} {row : ActRow}

@[simp] theorem exec_nil : db.exec [] = db := rfl

@[simp] theorem exec_concat {calls : List CommitArgs} :
    db.exec (calls ++ [p]) = ((db.exec calls).call p).2 := Runs.exec_concat

/-! ### What the conditions say -/

/-- A hash prints as it is. -/
theorem plain_of_isHash {s : String} (h : isHash s = true) : ∀ c ∈ s.toList, Plain c := by
  intro c hc
  rw [isHash, decide_eq_true_eq, List.all_eq_true] at h
  have hdigit := of_decide_eq_true (h.2 c hc)
  simp only [Char.le_def, UInt32.le_iff_toNat_le] at hdigit
  have hc : c.toNat = c.val.toNat := rfl
  have hq : c ≠ quote := by
    rintro rfl
    revert hdigit
    decide
  have hb : c ≠ backslash := by
    rintro rfl
    revert hdigit
    decide
  have hlow : 48 ≤ c.toNat := by
    simp at hdigit
    omega
  unfold Plain escapeChar
  rw [if_neg (by simp [hq, hb])]
  repeat rw [if_neg (by omega)]

/-- **An item of a hash array is a string that is a hash.** -/
theorem isHashItem_iff {item : Jsonb} :
    isHashItem item = true ↔ ∃ s, item = .string s ∧ isHash s = true := by
  rw [isHashItem, decide_eq_true_eq]
  constructor
  · rintro ⟨htype, hhash⟩
    cases item with
    | string s =>
      have hplain := plain_of_isHash hhash
      rw [String.toList_ofList] at hplain
      have hs := (trimBoth_quoted_eq_iff hplain).mp rfl
      refine ⟨s, rfl, ?_⟩
      rw [← String.ofList_toList (s := s), hs]
      exact hhash
    | _ => simp [Jsonb.typeof] at htype
  · rintro ⟨s, rfl, hs⟩
    refine ⟨rfl, ?_⟩
    change isHash (String.ofList (trimBoth quote (quoted s))) = true
    rw [(trimBoth_quoted_eq_iff (plain_of_isHash hs)).mpr rfl, String.ofList_toList]
    exact hs

/-- **A hash array is a list of hashes without repetition.** -/
theorem isHashArray_iff {value : Jsonb} : isHashArray (some value) = some true ↔
    ∃ l, value = .strings l ∧ (∀ h ∈ l, isHash h = true) ∧ l.Nodup := by
  have hcount : ∀ l : List String, l.length = l.dedup.length ↔ l.Nodup := by
    intro l
    rw [← List.dedup_eq_self]
    exact ⟨fun h => (List.dedup_sublist l).eq_of_length h.symm, fun h => by rw [h]⟩
  have htext : ∀ l : List String, (l.map Jsonb.string).filterMap Jsonb.itemText = l := by
    intro l
    rw [List.filterMap_map]
    exact List.filterMap_some
  constructor
  · intro h
    cases value with
    | array items =>
      have h := of_decide_eq_true (Option.some_inj.mp h)
      rw [List.all_eq_true] at h
      obtain ⟨l, rfl⟩ : ∃ l, items = List.map Jsonb.string l := by
        refine Jsonb.exists_strings fun item hitem => ?_
        obtain ⟨s, rfl, -⟩ := isHashItem_iff.mp (h.1 item hitem)
        rfl
      refine ⟨l, rfl, fun x hx => ?_, ?_⟩
      · obtain ⟨s, hs, hhash⟩ := isHashItem_iff.mp (h.1 _ (List.mem_map_of_mem hx))
        rwa [Jsonb.string.inj hs]
      · rw [← hcount, ← htext l, ← h.2, List.length_map, htext]
    | _ => simp [isHashArray] at h
  · rintro ⟨l, rfl, hhash, hnodup⟩
    refine congrArg some (decide_eq_true ⟨?_, ?_⟩)
    · rw [List.all_eq_true]
      intro item hitem
      obtain ⟨s, hs, rfl⟩ := List.mem_map.mp hitem
      exact isHashItem_iff.mpr ⟨s, rfl, hhash s hs⟩
    · rw [htext, List.length_map]
      exact (hcount l).mpr hnodup

/-- A hash array that is not known to be malformed is well formed, or missing. -/
theorem isHashArray_of_not_fails {value : Jsonb} (h : ¬(isHashArray (some value)).Fails) :
    isHashArray (some value) = some true := by
  rcases hb : isHashArray (some value) with _ | _ | _
  · cases value <;> cases hb
  · exact absurd hb h
  · rfl

theorem hasAct_iff {h : Hash} : db.hasAct (some h) = true ↔ ∃ a ∈ db.acts, a.hash = h := by
  rw [hasAct, List.any_eq_true]
  refine exists_congr fun a => and_congr_right fun _ => ?_
  rw [decide_eq_true_eq, holds_equals, Option.some_inj, eq_comm]

theorem unknownAct_strings {l : List Hash} :
    db.unknownAct (some (.strings l)) = .ok (l.any fun h => db.hasAct (some h) = false) := by
  rw [unknownAct, elementsText, Jsonb.elementsText_strings]
  refine congrArg Except.ok ?_
  rw [List.any_map]
  rfl

/-- No item of the array is unknown. -/
theorem forall_hasAct {l : List Hash} {unknown : Bool}
    (h : db.unknownAct (some (.strings l)) = .ok unknown) (hnot : ¬unknown = true) :
    ∀ x ∈ l, ∃ a ∈ db.acts, a.hash = x := by
  rw [unknownAct_strings] at h
  cases h
  intro x hx
  rw [← hasAct_iff]
  by_contra hunknown
  rw [Bool.not_eq_true] at hunknown
  exact hnot (List.any_eq_true.mpr ⟨x, hx, decide_eq_true hunknown⟩)

/-! ### What a call does -/

/-- An array column lists hashes of these Acts, each once. -/
def ListsActs (acts : List ActRow) (value : Jsonb) : Prop :=
  ∃ l, value = .strings l ∧ l.Nodup ∧ ∀ h ∈ l, ∃ a ∈ acts, a.hash = h

/-- **A row is built on the rows before it**: its decision cut lists their hashes, each
once, and its other cuts list some of them. -/
structure BuiltOn (before : List ActRow) (row : ActRow) : Prop where
  decisionCut : ∃ l, row.decisionCut = .strings l ∧ l.Nodup ∧
    ∀ h, h ∈ l ↔ ∃ a ∈ before, a.hash = h
  parents : ListsActs before row.parents
  authChain : ListsActs before row.authChain
  registryCut : ListsActs before row.registryCut

/-- **What holds when a row is inserted**, and what the insertion changes. -/
structure Inserted (db t : Tables) (p : CommitArgs) (row : ActRow) : Prop where
  made : p.row = some row
  fresh : ∀ a ∈ db.acts, a.hash ≠ row.hash
  builtOn : BuiltOn db.acts row
  unsettled : row.IsConsequential → ∀ a ∈ db.acts, a.IsConsequential →
    a.commandHash ≠ row.commandHash
  acts : t.acts = db.acts ++ [row]

/-- The function has seen every Act in the decision cut. -/
theorem checkCommit_ok {x : Unit} (h : db.checkCommit p = .ok x) :
    ∀ a ∈ db.acts, ¬(hasKey p.decisionCut (some a.hash)).Fails := by
  rw [checkCommit] at h
  obtain ⟨-, h⟩ := refuse_bind_ok.mp h
  obtain ⟨-, h⟩ := refuse_bind_ok.mp h
  obtain ⟨-, h⟩ := refuse_bind_ok.mp h
  obtain ⟨rules, -, h⟩ := bind_ok.mp h
  obtain ⟨-, h⟩ := refuse_bind_ok.mp h
  obtain ⟨-, h⟩ := refuse_bind_ok.mp h
  obtain ⟨listed, -, h⟩ := bind_ok.mp h
  obtain ⟨hlisted, -⟩ := refuse_bind_ok.mp h
  rw [Truth.holds_or, not_or, Truth.holds_some] at hlisted
  intro a ha hfails
  refine hlisted.2 (List.any_eq_true.mpr ⟨a, ha, decide_eq_true ?_⟩)
  exact Truth.holds_not.mpr hfails

theorem storeObject_ok (h : db.storeObject p = .ok t) : t.acts = db.acts := by
  rw [storeObject] at h
  split at h
  · split at h
    · cases h
    · split at h
      · cases h
        rfl
      · cases h
        rfl
  · cases h

/-- The arrays of a row that passed the trigger list hashes. -/
theorem isHashArray_of_arrays (hrow : p.row = some row) (h : ¬(malformedArrays p).Holds) :
    isHashArray (some row.parents) = some true ∧ isHashArray (some row.decisionCut) = some true ∧
      isHashArray (some row.authChain) = some true ∧
        isHashArray (some row.registryCut) = some true := by
  rw [CommitArgs.eq_of_row hrow] at h
  simp only [malformedArrays, Truth.holds_or, Truth.holds_not, not_or] at h
  obtain ⟨hparents, hcut, hchain, hregistry, -⟩ := h
  exact ⟨isHashArray_of_not_fails hparents, isHashArray_of_not_fails hcut,
    isHashArray_of_not_fails hchain, isHashArray_of_not_fails hregistry⟩

/-- An array that was found well formed, and known item by item. -/
theorem listsActs {value : Jsonb} {unknown : Bool} (hvalue : isHashArray (some value) = some true)
    (h : db.unknownAct (some value) = .ok unknown) (hnot : ¬unknown = true) :
    ListsActs db.acts value := by
  obtain ⟨l, rfl, -, hnodup⟩ := isHashArray_iff.mp hvalue
  exact ⟨l, rfl, hnodup, forall_hasAct h hnot⟩

/-- **What the trigger has checked of a row.** -/
theorem validateActInsert_ok {x : Unit} (hrow : p.row = some row)
    (h : db.validateActInsert p = .ok x) :
    ListsActs db.acts row.parents ∧ ListsActs db.acts row.decisionCut ∧
      ListsActs db.acts row.registryCut ∧ ListsActs db.acts row.authChain := by
  rw [validateActInsert] at h
  obtain ⟨-, h⟩ := refuse_bind_ok.mp h
  obtain ⟨harrays, h⟩ := refuse_bind_ok.mp h
  obtain ⟨-, h⟩ := refuse_bind_ok.mp h
  obtain ⟨unknownParent, hparents, h⟩ := bind_ok.mp h
  obtain ⟨hnoparent, h⟩ := refuse_bind_ok.mp h
  obtain ⟨unknownListed, hlisted, h⟩ := bind_ok.mp h
  obtain ⟨hnolisted, h⟩ := refuse_bind_ok.mp h
  obtain ⟨unknownRegistered, hregistered, h⟩ := bind_ok.mp h
  obtain ⟨hnoregistered, h⟩ := refuse_bind_ok.mp h
  obtain ⟨unknownLink, hlink, h⟩ := bind_ok.mp h
  have hnolink : ¬unknownLink = true := by
    rintro rfl
    cases h
  obtain ⟨hp, hd, hc, hr⟩ := isHashArray_of_arrays hrow harrays
  rw [CommitArgs.eq_of_row hrow] at hparents hlisted hregistered hlink
  exact ⟨listsActs hp hparents hnoparent, listsActs hd hlisted hnolisted,
    listsActs hr hregistered hnoregistered, listsActs hc hlink hnolink⟩

/-- **What an insertion into `acts` has checked**, and what it changes. -/
theorem insertAct_ok (h : db.insertAct p = .ok (row, t)) :
    (p.row = some row ∧ db.validateActInsert p = .ok ()) ∧ (∀ a ∈ db.acts, a.hash ≠ row.hash) ∧
      (row.IsConsequential → ∀ a ∈ db.acts, a.IsConsequential →
        a.commandHash ≠ row.commandHash) ∧ t = { db with acts := db.acts ++ [row] } := by
  rw [insertAct] at h
  obtain ⟨_, hvalid, h⟩ := bind_ok.mp h
  rcases hrow : p.row with _ | r
  · rw [hrow] at h
    cases h
  · rw [hrow] at h
    obtain ⟨_, -, h⟩ := bind_ok.mp h
    obtain ⟨hfresh, h⟩ := refuse_bind_ok.mp h
    obtain ⟨hindex, h⟩ := refuse_bind_ok.mp h
    obtain ⟨-, h⟩ := refuse_bind_ok.mp h
    cases h
    refine ⟨⟨rfl, hvalid⟩, fun a ha heq => hfresh ⟨a, ha, heq⟩, ?_, rfl⟩
    exact fun hcons a ha hcons' heq => hindex ⟨hcons, a, ha, hcons', heq⟩

theorem existing_eq_some (h : db.existing p.actHash = some row) :
    row ∈ db.acts ∧ p.actHash = some row.hash := by
  have hfound := List.find?_some h
  rw [decide_eq_true_eq, holds_equals] at hfound
  exact ⟨List.mem_of_find?_eq_some h, hfound⟩

theorem call_of_existing (h : db.existing p.actHash = some row) : db.call p = (.ok row, db) := by
  rw [call, commitAct, h]

/-- What the function attempts for a new hash. -/
def insertion (db : Tables) (p : CommitArgs) : Except Raised (ActRow × Tables) := do
  db.checkCommit p
  let written ← db.storeObject p
  refuse (written.stored p = false) "CAS collision for Act hash"
  written.insertAct p

/-- **A call with a new hash** keeps what the function has written, or none of it. -/
theorem call_of_new (h : db.existing p.actHash = none) :
    db.call p = match db.insertion p with
      | .ok (row, t) => (.ok row, t)
      | .error e => (.error e, db) := by
  have hinsertion : db.insertion p = (db.checkCommit p >>= fun _ => db.storeObject p) >>=
      fun written => refuse (written.stored p = false) "CAS collision for Act hash" >>= fun _ =>
        written.insertAct p := by
    rw [LawfulMonad.bind_assoc]
    rfl
  rw [call, commitAct, h, hinsertion]
  dsimp only
  rcases db.checkCommit p >>= fun _ => db.storeObject p with e | written
  · rfl
  · dsimp only
    change _ = match (refuse _ _ >>= fun _ => written.insertAct p) with
      | .ok (row, t) => (Except.ok row, t)
      | .error e => (.error e, db)
    rcases refuse (written.stored p = false) "CAS collision for Act hash" >>= fun _ =>
      written.insertAct p with e | ⟨row, t⟩
    · rfl
    · rfl

/-- **What a call does when it returns**: it has found the row, or inserted it. -/
theorem call_ok (h : db.call p = (.ok row, t)) :
    (db.existing p.actHash = some row ∧ t = db) ∨ Inserted db t p row := by
  rcases hfound : db.existing p.actHash with _ | found
  · rw [call_of_new hfound] at h
    rcases hinsertion : db.insertion p with e | ⟨r, inserted⟩
    · rw [hinsertion] at h
      cases h
    · rw [hinsertion] at h
      cases h
      rw [insertion] at hinsertion
      obtain ⟨_, hcheck, hinsertion⟩ := bind_ok.mp hinsertion
      obtain ⟨written, hstore, hinsertion⟩ := bind_ok.mp hinsertion
      obtain ⟨-, hinsert⟩ := refuse_bind_ok.mp hinsertion
      obtain ⟨⟨hrow, hvalid⟩, hfresh, hindex, rfl⟩ := insertAct_ok hinsert
      obtain ⟨hparents, hlisted, hregistry, hchain⟩ := validateActInsert_ok hrow hvalid
      have hacts := storeObject_ok hstore
      rw [hacts] at hparents hlisted hregistry hchain hfresh hindex
      refine Or.inr ⟨hrow, hfresh, ⟨?_, hparents, hchain, hregistry⟩, hindex, by rw [hacts]⟩
      obtain ⟨l, hl, hnodup, hsub⟩ := hlisted
      refine ⟨l, hl, hnodup, fun x => ⟨hsub x, ?_⟩⟩
      -- The other way round is the check the function makes itself.
      rintro ⟨a, ha, rfl⟩
      have hseen := checkCommit_ok hcheck a ha
      rw [CommitArgs.eq_of_row hrow, hl] at hseen
      rw [← Jsonb.hasKey_strings, ← Bool.not_eq_false]
      exact fun hnot => hseen (congrArg some hnot)
  · rw [call_of_existing hfound] at h
    cases h
    exact Or.inl ⟨rfl, rfl⟩

/-- **A call that raises leaves nothing behind.** -/
theorem call_error {e : Raised} (h : (db.call p).1 = .error e) : (db.call p).2 = db := by
  rw [call] at h ⊢
  rcases hbody : db.commitAct p with ⟨r | row, t⟩
  · rfl
  · rw [hbody] at h
    cases h

end Tables

end PowerfarmKernel
