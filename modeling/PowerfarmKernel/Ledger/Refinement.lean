import PowerfarmKernel.Ledger.CommitAct

/-!
# The adapter's calls

`PostgresStore.commit_act` calls the function with the arguments of an Act
(`PowerfarmKernel.CommitArgs.ofAct`): none is null that may not be, and every array is one.
On these calls the checks of three-valued logic come down to those over the Act itself, and
the function does what `PowerfarmKernel.Postgres.commitAct` says, refusal by refusal
(`PowerfarmKernel.Tables.Represents.call`).
-/

namespace PowerfarmKernel

open Sql

open Postgres (refuse refuse_bind_ok bind_ok)

namespace Tables

variable {db t : Tables} {p : CommitArgs} {row : ActRow}

/-! ### Rows and Acts -/

/-- **The tables hold what the model of the adapter's database holds**: their rows read back
as its Acts. -/
structure Represents (db : Tables) (pg : Postgres) : Prop where
  objects : db.objects = pg.objects
  acts : List.Forall₂ (fun row act => rowToAct row = .ok act) db.acts pg.acts
  registry : db.registry = pg.registry
  identities : db.identities = pg.identities

theorem rowToAct_ok {act : Act} (h : rowToAct row = .ok act) :
    act.hash = row.hash ∧ act.actType = row.actType ∧ act.commandHash = row.commandHash := by
  rw [rowToAct] at h
  obtain ⟨_, -, h⟩ := bind_ok.mp h
  obtain ⟨_, -, h⟩ := bind_ok.mp h
  obtain ⟨_, -, h⟩ := bind_ok.mp h
  obtain ⟨_, -, h⟩ := bind_ok.mp h
  obtain ⟨_, -, h⟩ := bind_ok.mp h
  cases h
  exact ⟨rfl, rfl, rfl⟩

theorem length_sorted (cut : Cut) : (sorted cut).length = cut.card := by
  rcases cut with ⟨⟨l⟩, _⟩
  exact List.length_insertionSort _ _

@[simp] theorem hasKey_strings {l : List String} {key : String} :
    hasKey (some (.strings l)) (some key) = some (decide (key ∈ l)) := by
  refine congrArg some (Bool.eq_iff_iff.mpr ?_)
  rw [Jsonb.hasKey_strings, decide_eq_true_eq]

@[simp] theorem isHashArray_strings {l : List Hash} :
    isHashArray (some (.strings l)) = some (Postgres.isHashArray l) := by
  obtain ⟨b, hb⟩ : ∃ b, isHashArray (some (.strings l)) = some b := ⟨_, rfl⟩
  rw [hb, Option.some_inj, Bool.eq_iff_iff, Postgres.isHashArray, decide_eq_true_eq,
    List.all_eq_true]
  constructor
  · rintro rfl
    obtain ⟨l', hl, hhash, hnodup⟩ := isHashArray_iff.mp hb
    rw [Jsonb.strings_inj.mp hl]
    exact ⟨hhash, hnodup⟩
  · rintro ⟨hhash, hnodup⟩
    have hvalid := isHashArray_iff.mpr ⟨l, rfl, hhash, hnodup⟩
    rw [hb] at hvalid
    exact Option.some_inj.mp hvalid

theorem refuse_congr {c c' : Prop} [Decidable c] [Decidable c'] (h : c ↔ c') (text : String) :
    refuse c text = refuse c' text := by
  rw [refuse, refuse]
  exact if_congr h rfl rfl

theorem refuse_bind_congr {α : Type} {c c' : Prop} [Decidable c] [Decidable c'] {text : String}
    {f f' : Unit → Except Raised α} (h : c ↔ c') (hf : f () = f' ()) :
    (refuse c text >>= f) = (refuse c' text >>= f') := by
  rw [refuse_congr h, show f = f' from funext fun _ => hf]

namespace Represents

variable {pg : Postgres} {act : Act} {canon : Bytes} {commandType : String}

/-- What is asked of some row is asked of some Act. -/
theorem exists_iff (h : Represents db pg) {q : ActRow → Prop} {q' : Act → Prop}
    (hq : ∀ row act, rowToAct row = .ok act → (q row ↔ q' act)) :
    (∃ a ∈ db.acts, q a) ↔ ∃ a ∈ pg.acts, q' a := by
  have hacts := h.acts
  generalize db.acts = rows at hacts ⊢
  generalize pg.acts = acts at hacts ⊢
  induction hacts with
  | nil => simp
  | cons hhead _ ih => simp only [List.exists_mem_cons_iff, hq _ _ hhead, ih]

theorem hasAct_iff (h : Represents db pg) {x : Hash} :
    db.hasAct (some x) = true ↔ pg.HasAct x := by
  rw [Tables.hasAct_iff]
  refine h.exists_iff fun row act hread => ?_
  rw [(rowToAct_ok hread).1]

/-- **The same Act is found**, or none. -/
theorem existing (h : Represents db pg) (x : Hash) :
    (db.existing (some x) = none ∧ pg.getAct x = none) ∨ ∃ row act,
      db.existing (some x) = some row ∧ pg.getAct x = some act ∧ rowToAct row = .ok act := by
  rw [Tables.existing, Postgres.getAct]
  have hacts := h.acts
  generalize db.acts = rows at hacts ⊢
  generalize pg.acts = acts at hacts ⊢
  induction hacts with
  | nil => exact Or.inl ⟨rfl, rfl⟩
  | @cons row act rows acts hhead _ ih =>
    rw [List.find?_cons, List.find?_cons]
    by_cases hx : row.hash = x
    · refine Or.inr ⟨row, act, ?_, ?_, hhead⟩
      · simp [hx]
      · simp [(rowToAct_ok hhead).1, hx]
    · have hne : ¬(equals (some row.hash) (some x)).Holds := by
        rw [holds_equals, Option.some_inj]
        exact Ne.symm hx
      rw [decide_eq_false hne, decide_eq_false (by rwa [(rowToAct_ok hhead).1])]
      exact ih

theorem any_unknown (h : Represents db pg) {l : List Hash} :
    (l.any fun x => db.hasAct (some x) = false) = true ↔ ∃ x ∈ l, ¬pg.HasAct x := by
  rw [List.any_eq_true]
  refine exists_congr fun x => and_congr_right fun _ => ?_
  rw [decide_eq_true_eq, ← h.hasAct_iff, Bool.not_eq_true]

/-- A check that every item of an array is known. -/
theorem unknownAct (h : Represents db pg) {l : List Hash} {c : Prop} [Decidable c] {α : Type}
    {text : String} {f f' : Except Raised α} (hc : c ↔ ∃ x ∈ l, ¬pg.HasAct x) (hf : f = f') :
    (db.unknownAct (some (.strings l)) >>= fun unknown =>
      refuse unknown text >>= fun _ => f) = (refuse c text >>= fun _ => f') := by
  rw [unknownAct_strings]
  exact refuse_bind_congr (h.any_unknown.trans hc.symm) hf

theorem exists_sorted {cut : Cut} {q : Hash → Prop} : (∃ x ∈ cut, q x) ↔ ∃ x ∈ sorted cut, q x :=
  exists_congr fun _ => and_congr_left' mem_sorted.symm

/-- A name of the registry, born in the cut the adapter passes. -/
theorem registeredName (h : Represents db pg) {kind name : String} {cut : Cut} :
    db.registeredName kind (some name) (some (.strings (sorted cut))) =
      pg.registeredName kind name cut := by
  rw [Tables.registeredName, Postgres.registeredName, h.registry]
  refine congrArg (fun f => pg.registry.any f) (funext fun r => ?_)
  rw [Bool.eq_iff_iff, decide_eq_true_eq, decide_eq_true_eq]
  simp only [Truth.holds_and, Truth.holds_some, decide_eq_true_eq, holds_equals, Option.some_inj,
    hasKey_strings, mem_sorted]
  rw [@eq_comm _ name]

theorem registeredRule (h : Represents db pg) {ruleHash : Hash} {cut : Cut} :
    db.registeredRule (some (.strings (sorted cut))) (some ruleHash) = true ↔
      ∃ r ∈ pg.registry, r.hash = ruleHash ∧ r.kind = "rule" ∧ r.bornAt ∈ cut := by
  rw [Tables.registeredRule, h.registry, List.any_eq_true]
  refine exists_congr fun r => and_congr_right fun _ => ?_
  rw [decide_eq_true_eq]
  simp only [Truth.holds_and, Truth.holds_some, decide_eq_true_eq, holds_equals, Option.some_inj,
    hasKey_strings, mem_sorted]
  rw [@eq_comm _ ruleHash]

theorem hasObject (h : Represents db pg) {x : Hash} :
    db.hasObject (some x) = false ↔ pg.objects.get? x = none := by
  rw [Tables.hasObject, h.objects]
  exact Option.isSome_eq_false_iff.trans Option.isNone_iff_eq_none

theorem hasIdentity (h : Represents db pg) {x : Hash} :
    db.hasIdentity (some x) = false ↔ pg.identities.get? x = none := by
  rw [Tables.hasIdentity, h.identities]
  exact Option.isSome_eq_false_iff.trans Option.isNone_iff_eq_none

/-- The history the function finds in the cut is the one the model finds there. -/
theorem advanced (h : Represents db pg) {cut : Cut} :
    (Truth.or (some (decide (db.acts.length ≠ (sorted cut).length)))
      (some (db.acts.any fun a =>
        (hasKey (some (.strings (sorted cut))) (some a.hash)).not.Holds))).Holds ↔
      pg.acts.length ≠ cut.card ∨ ∃ a ∈ pg.acts, a.hash ∉ cut := by
  rw [Truth.holds_or, Truth.holds_some, Truth.holds_some, decide_eq_true_eq, List.any_eq_true,
    length_sorted, h.acts.length_eq]
  refine or_congr Iff.rfl (h.exists_iff fun row act hread => ?_)
  rw [decide_eq_true_eq, Truth.holds_not, hasKey_strings, Truth.fails_some, decide_eq_false_iff_not,
    mem_sorted, (rowToAct_ok hread).1]

theorem malformedArrays_ofAct :
    (malformedArrays (.ofAct act canon commandType)).Holds ↔ Postgres.arraysValid act = false := by
  rw [Postgres.arraysValid, decide_eq_false_iff_not]
  simp only [malformedArrays, CommitArgs.ofAct, isHashArray_strings, Truth.holds_or,
    Truth.holds_not, Truth.fails_some]
  grind

/-- **The function checks what the model of the adapter's database checks.** -/
theorem checkCommit (h : Represents db pg) :
    db.checkCommit (.ofAct act canon commandType) = pg.checkCommit act canon commandType := by
  rw [Tables.checkCommit, Postgres.checkCommit]
  refine refuse_bind_congr ?_ ?_
  · simp only [CommitArgs.ofAct, malformedHash, Truth.holds_or, Option.map_some, Truth.holds_some]
    grind
  refine refuse_bind_congr (by simp [CommitArgs.ofAct]) ?_
  refine refuse_bind_congr malformedArrays_ofAct ?_
  simp only [CommitArgs.ofAct, arrayLength, Jsonb.arrayLength_strings]
  refine refuse_bind_congr (by simp) ?_
  refine refuse_bind_congr (by simp) ?_
  refine refuse_bind_congr h.advanced ?_
  refine refuse_bind_congr h.hasIdentity ?_
  refine refuse_bind_congr h.hasObject ?_
  refine refuse_bind_congr h.hasObject ?_
  refine h.unknownAct Iff.rfl ?_
  refine h.unknownAct exists_sorted ?_
  refine h.unknownAct Iff.rfl ?_
  refine refuse_bind_congr (by rw [h.registeredName]) ?_
  refine refuse_bind_congr (by rw [h.registeredName]) ?_
  rw [elementsText, Jsonb.elementsText_strings]
  refine refuse_congr ?_ _
  rw [List.any_map, List.any_eq_true]
  refine exists_congr fun x => and_congr_right fun _ => ?_
  exact decide_eq_true_iff.trans (by rw [← h.registeredRule, Bool.not_eq_true])

/-- The trigger checks what the model's trigger checks. -/
theorem validateActInsert (h : Represents db pg) (canon : Bytes) :
    db.validateActInsert (.ofAct act canon commandType) =
      pg.validateActInsert act commandType := by
  rw [Tables.validateActInsert, Postgres.validateActInsert]
  refine refuse_bind_congr (by simp [CommitArgs.ofAct]) ?_
  refine refuse_bind_congr malformedArrays_ofAct ?_
  refine refuse_bind_congr (by simp [CommitArgs.ofAct]) ?_
  refine h.unknownAct Iff.rfl ?_
  refine h.unknownAct exists_sorted ?_
  refine h.unknownAct exists_sorted ?_
  change (db.unknownAct (some (.strings act.authChain)) >>= fun unknown => refuse unknown _) = _
  rw [unknownAct_strings]
  exact refuse_congr h.any_unknown _

/-- What the checks have found of the hashes, the arrays and the objects of an Act. -/
structure Checked (pg : Postgres) (act : Act) : Prop where
  actHash : isHash act.hash = true
  commandHash : isHash act.commandHash = true
  contextHash : isHash act.contextHash = true
  arrays : Postgres.arraysValid act = true
  context : pg.objects.get? act.contextHash ≠ none
  payload : pg.objects.get? act.payloadHash ≠ none

theorem Checked.mono {pt : Postgres} (h : Checked pg act) (hle : pg.objects ≤ pt.objects) :
    Checked pt act := by
  refine { h with context := ?_, payload := ?_ }
  · obtain ⟨found, hfound⟩ := Option.ne_none_iff_exists'.mp h.context
    rw [Dict.get?_of_le hle hfound]
    exact Option.some_ne_none _
  · obtain ⟨found, hfound⟩ := Option.ne_none_iff_exists'.mp h.payload
    rw [Dict.get?_of_le hle hfound]
    exact Option.some_ne_none _

theorem checked {x : Unit} (h : pg.checkCommit act canon commandType = .ok x) :
    Checked pg act := by
  rw [Postgres.checkCommit] at h
  obtain ⟨hhashes, h⟩ := refuse_bind_ok.mp h
  obtain ⟨-, h⟩ := refuse_bind_ok.mp h
  obtain ⟨harrays, h⟩ := refuse_bind_ok.mp h
  obtain ⟨-, h⟩ := refuse_bind_ok.mp h
  obtain ⟨-, h⟩ := refuse_bind_ok.mp h
  obtain ⟨-, h⟩ := refuse_bind_ok.mp h
  obtain ⟨-, h⟩ := refuse_bind_ok.mp h
  obtain ⟨hcontext, h⟩ := refuse_bind_ok.mp h
  obtain ⟨hpayload, -⟩ := refuse_bind_ok.mp h
  rw [not_not] at hhashes
  exact ⟨hhashes.1, hhashes.2.1, hhashes.2.2.2.1, Bool.not_eq_false _ ▸ harrays, hcontext,
    hpayload⟩

/-- **The bytes of the Act are stored on both sides**, or clash with the same object. -/
theorem storeObject (h : Represents db pg) (hchecked : Checked pg act) (canon : Bytes)
    (commandType : String) : ∃ written,
    db.storeObject (.ofAct act canon commandType) = .ok written ∧
      ((written.stored (.ofAct act canon commandType) = false ∧
        pg.storeAct act canon = .error (databaseError "CAS collision for Act hash")) ∨
      (written.stored (.ofAct act canon commandType) = true ∧
        ∃ pt, pg.storeAct act canon = .ok pt ∧ Represents written pt ∧ pt.acts = pg.acts ∧
          pg.objects ≤ pt.objects ∧ pt.objects.get? act.hash ≠ none)) := by
  have hstored : ∀ written : Tables, written.stored (.ofAct act canon commandType) =
      decide (written.objects.get? act.hash = some (canon, "act")) := by
    intro written
    have hhash : (CommitArgs.ofAct act canon commandType).actHash = some act.hash := rfl
    rw [stored, hhash, Option.bind_some]
    rcases written.objects.get? act.hash with _ | ⟨bytes, kind⟩
    · rfl
    · rw [Bool.eq_iff_iff, decide_eq_true_eq]
      simp only [CommitArgs.ofAct, Truth.holds_and, holds_equals, Truth.holds_some, Option.some_inj,
        decide_eq_true_eq, Prod.mk.injEq, @eq_comm _ canon]
  -- The hash was checked when the arguments were.
  change ∃ written, (if isHash act.hash = false then _ else _) = Except.ok written ∧ _
  rw [if_neg (by rw [hchecked.actHash]; decide), Postgres.storeAct, ← h.objects]
  -- `ON CONFLICT DO NOTHING`: a row that is there stays, and is compared afterwards.
  rcases hfound : db.objects.get? act.hash with _ | found
  · refine ⟨_, rfl, Or.inr ⟨?_, _, rfl, ⟨?_, h.acts, h.registry, h.identities⟩, rfl, ?_, ?_⟩⟩
    · rw [hstored, decide_eq_true_eq]
      exact Dict.get?_set_self
    · rfl
    · refine Dict.le_set fun w hw => ?_
      rw [hfound] at hw
      cases hw
    · rw [Dict.get?_set_self]
      exact Option.some_ne_none _
  · refine ⟨db, rfl, ?_⟩
    dsimp only
    split
    · rename_i hclash
      refine Or.inl ⟨?_, rfl⟩
      rw [hstored, decide_eq_false_iff_not, hfound, Option.some_inj]
      exact hclash
    · rename_i hsame
      refine Or.inr ⟨?_, pg, rfl, h, rfl, ?_, ?_⟩
      · rw [hstored, decide_eq_true_eq, hfound]
        exact congrArg some (not_not.mp hsame)
      · exact h.objects.le
      · rw [← h.objects, hfound]
        exact Option.some_ne_none _

/-- The row the adapter's call is inserted as meets the constraints of the columns. -/
theorem checkRow_ok (hchecked : Checked pg act) (hrow : (CommitArgs.ofAct act canon
    commandType).row = some row) : checkRow row = .ok () := by
  obtain rfl := Option.some_inj.mp hrow
  have harrays := hchecked.arrays
  rw [Postgres.arraysValid, decide_eq_true_eq] at harrays
  rw [checkRow, refuse_bind_ok, refuse_bind_ok, refuse, if_neg]
  · refine ⟨?_, ?_, rfl⟩
    · simp [Jsonb.strings, Jsonb.typeof]
    · simp [hchecked.actHash, hchecked.commandHash, hchecked.contextHash]
  · have hrules : isHashArray (CommitArgs.ofAct act canon commandType).ruleHashes =
        some true := isHashArray_strings.trans (congrArg some harrays.2.2.2.2)
    simp [harrays, hrules]

/-- Past the trigger and the constraints, only the partial index is left. -/
theorem insertAct_eq {x : Unit} (hvalid : db.validateActInsert p = .ok x)
    (hrow : p.row = some row) (hcheck : checkRow row = .ok ())
    (hunique : ¬∃ a ∈ db.acts, a.hash = row.hash)
    (hobjects : ¬(db.hasObject (some row.hash) = false ∨
      db.hasObject (some row.payloadHash) = false ∨ db.hasObject (some row.contextHash) = false)) :
    db.insertAct p = (refuse (row.IsConsequential ∧
        ∃ a ∈ db.acts, a.IsConsequential ∧ a.commandHash = row.commandHash)
      "violates unique index acts_one_consequence_per_command_idx" >>= fun _ =>
        .ok (row, { db with acts := db.acts ++ [row] })) := by
  rw [Tables.insertAct, hvalid, hrow]
  change (checkRow row >>= _) = _
  rw [hcheck]
  change (refuse _ _ >>= _) = _
  rw [refuse, if_neg hunique]
  refine refuse_bind_congr Iff.rfl ?_
  rw [refuse, if_neg hobjects]
  rfl

/-- **The row is inserted where the Act is**, and refused where it is refused. -/
theorem insertAct (h : Represents db pg) (hchecked : Checked pg act)
    (hfresh : ¬pg.HasAct act.hash) (hwritten : pg.objects.get? act.hash ≠ none) :
    (∃ row t pt, db.insertAct (.ofAct act canon commandType) = .ok (row, t) ∧
      pg.insertAct act commandType = .ok pt ∧ rowToAct row = .ok act ∧ Represents t pt) ∨
    ∃ e, db.insertAct (.ofAct act canon commandType) = .error e ∧
      pg.insertAct act commandType = .error e := by
  obtain ⟨row, hrow, hread⟩ := rowToAct_row act canon commandType
  rcases hvalid : db.validateActInsert (.ofAct act canon commandType) with e | x
  · rw [Tables.insertAct, Postgres.insertAct, ← h.validateActInsert canon, hvalid]
    exact Or.inr ⟨e, rfl, rfl⟩
  rw [Postgres.insertAct, ← h.validateActInsert canon, hvalid]
  obtain ⟨hhash, htype, hcommand⟩ := rowToAct_ok hread
  have hunique : ¬∃ a ∈ db.acts, a.hash = row.hash := by
    rw [← hhash, ← Tables.hasAct_iff, h.hasAct_iff]
    exact hfresh
  have hobjects : ¬(db.hasObject (some row.hash) = false ∨
      db.hasObject (some row.payloadHash) = false ∨
        db.hasObject (some row.contextHash) = false) := by
    obtain rfl := Option.some_inj.mp hrow
    simp only [h.hasObject, not_or]
    exact ⟨hwritten, hchecked.payload, hchecked.context⟩
  -- The partial index looks at two columns, and the rows keep them.
  have hindex : (row.IsConsequential ∧
      ∃ a ∈ db.acts, a.IsConsequential ∧ a.commandHash = row.commandHash) ↔
        (act.IsConsequential ∧ ∃ a ∈ pg.acts, a.IsConsequential ∧ a.commandHash =
          act.commandHash) := by
    refine and_congr ?_ (h.exists_iff fun r a hra => and_congr ?_ ?_)
    · rw [ActRow.IsConsequential, Act.IsConsequential, htype]
    · rw [ActRow.IsConsequential, Act.IsConsequential, (rowToAct_ok hra).2.1]
    · rw [(rowToAct_ok hra).2.2, hcommand]
  rw [insertAct_eq hvalid hrow (checkRow_ok hchecked hrow) hunique hobjects,
    refuse_congr hindex]
  by_cases hsettled : act.IsConsequential ∧ ∃ a ∈ pg.acts, a.IsConsequential ∧
      a.commandHash = act.commandHash
  · rw [refuse, if_pos hsettled]
    exact Or.inr ⟨_, rfl, rfl⟩
  · rw [refuse, if_neg hsettled]
    exact Or.inl ⟨row, _, _, rfl, rfl, hread, h.objects,
      List.rel_append h.acts (List.Forall₂.cons hread .nil), h.registry, h.identities⟩

theorem ok_bind {α β : Type} (x : α) (f : α → Except Raised β) : (Except.ok x >>= f) = f x := rfl

/-- The adapter's call with an Act its database does not have, step by step. -/
theorem commitAct_of_new (htext : act.claimedWhen.all Postgres.isText = true)
    (hget : pg.getAct act.hash = none) :
    pg.commitAct act canon commandType =
      pg.checkCommit act canon commandType >>= fun _ =>
        pg.storeAct act canon >>= fun stored =>
          stored.insertAct act commandType >>= fun inserted => .ok (act, inserted) := by
  have htextual : ¬act.claimedWhen.all Postgres.isText = false := by
    rw [htext]
    decide
  rw [Postgres.commitAct, hget]
  dsimp only
  rw [refuse, if_neg htextual]
  rfl

/-- Past the checks, the bytes are stored and the row is inserted on both sides. -/
theorem storedInsertion (h : Represents db pg) (hchecked : Checked pg act)
    (hget : pg.getAct act.hash = none) :
    ∃ written, db.storeObject (.ofAct act canon commandType) = .ok written ∧
      ((∃ e, refuse (written.stored (.ofAct act canon commandType) = false)
          "CAS collision for Act hash" = .error e ∧ pg.storeAct act canon = .error e) ∨
      (refuse (written.stored (.ofAct act canon commandType) = false)
          "CAS collision for Act hash" = .ok () ∧
        ∃ pt, pg.storeAct act canon = .ok pt ∧
          ((∃ row t pt', written.insertAct (.ofAct act canon commandType) = .ok (row, t) ∧
            pt.insertAct act commandType = .ok pt' ∧ rowToAct row = .ok act ∧
              Represents t pt') ∨
          ∃ e, written.insertAct (.ofAct act canon commandType) = .error e ∧
            pt.insertAct act commandType = .error e))) := by
  obtain ⟨written, hstore, hcases⟩ := h.storeObject hchecked canon commandType
  refine ⟨written, hstore, ?_⟩
  rcases hcases with ⟨hclash, hstore'⟩ | ⟨hstored, pt, hstore', hwritten, hacts, hle, hobject⟩
  · exact Or.inl ⟨_, by rw [refuse, if_pos hclash], hstore'⟩
  · have hfresh : ¬pt.HasAct act.hash := by
      rw [Postgres.HasAct, hacts]
      exact Postgres.getAct_eq_none_iff.mp hget
    have hkept : ¬written.stored (.ofAct act canon commandType) = false := by
      rw [hstored]
      decide
    exact Or.inr ⟨by rw [refuse, if_neg hkept], pt, hstore',
      hwritten.insertAct (hchecked.mono hle) hfresh hobject⟩

/-- **A new Act is inserted on both sides**, or refused with the same text. -/
theorem insertion (h : Represents db pg) (htext : act.claimedWhen.all Postgres.isText = true)
    (hget : pg.getAct act.hash = none) :
    (∃ row t pt, db.insertion (.ofAct act canon commandType) = .ok (row, t) ∧
      pg.commitAct act canon commandType = .ok (act, pt) ∧ rowToAct row = .ok act ∧
        Represents t pt) ∨
    ∃ e, db.insertion (.ofAct act canon commandType) = .error e ∧
      pg.commitAct act canon commandType = .error e := by
  rw [commitAct_of_new htext hget, Tables.insertion, h.checkCommit]
  rcases hcheck : pg.checkCommit act canon commandType with e | _
  · exact Or.inr ⟨e, rfl, rfl⟩
  obtain ⟨written, hstore, hcases⟩ :=
    h.storedInsertion (checked hcheck) hget
  rw [ok_bind, ok_bind, hstore, ok_bind]
  rcases hcases with ⟨e, hrefused, hstore'⟩ | ⟨hkept, pt, hstore', hinserted⟩
  · rw [hrefused, hstore']
    exact Or.inr ⟨e, rfl, rfl⟩
  rw [hkept, hstore', ok_bind, ok_bind]
  rcases hinserted with ⟨row, t, pt', hinsert, hinsert', hread, hrep⟩ | ⟨e, hinsert, hinsert'⟩
  · rw [hinsert, hinsert']
    exact Or.inl ⟨row, t, pt', rfl, rfl, hread, hrep⟩
  · rw [hinsert, hinsert']
    exact Or.inr ⟨e, rfl, rfl⟩

/-- **The adapter's call does what the model of its database says**: it answers with the
row of the same Act, or refuses with the same text. -/
theorem call (h : Represents db pg) (htext : act.claimedWhen.all Postgres.isText = true) :
    (∃ row t r pt, db.call (.ofAct act canon commandType) = (.ok row, t) ∧
      pg.commitAct act canon commandType = .ok (r, pt) ∧ rowToAct row = .ok r ∧
        Represents t pt) ∨
    ∃ e, db.call (.ofAct act canon commandType) = (.error e, db) ∧
      pg.commitAct act canon commandType = .error e := by
  rcases h.existing act.hash with ⟨hnone, hget⟩ | ⟨row, r, hsome, hget, hread⟩
  · rw [call_of_new hnone]
    rcases h.insertion htext hget with
      ⟨row, t, pt, hinsert, hcommit, hread, hrep⟩ | ⟨e, hinsert, hcommit⟩
    · rw [hinsert]
      exact Or.inl ⟨row, t, act, pt, rfl, hcommit, hread, hrep⟩
    · rw [hinsert]
      exact Or.inr ⟨e, rfl, hcommit⟩
  · rw [call_of_existing hsome, Postgres.commitAct, hget]
    exact Or.inl ⟨row, db, r, pg, rfl, rfl, hread, h⟩

end Represents

end Tables

end PowerfarmKernel
