import PowerfarmKernel.Ledger.Backstop

/-!
# No Act without Rules

The commit function of the database demands what the gate demands: at least one Rule, every
name and every Rule registered inside the registry cut, the Identity, the Context and the
payload there. A guard of SQL stops what is known to be wrong and passes what is unknown.
For most arguments a null is caught later, by a search that finds nothing or by a column
that may not be null.

`p_rule_hashes` is the exception. A null has no length that is zero, no element that could
be unregistered, and is no malformed array to the trigger or the constraint; and the column
may be null. So a row is inserted without Rules, and
`PowerfarmKernel.Tables.lawful_iff` says that this is the only way: an inserted row is in
order exactly when that argument was not null.
-/

namespace PowerfarmKernel

open Sql

open Postgres (refuse refuse_bind_ok bind_ok refuse_ok)

namespace Tables

variable {db t : Tables} {p : CommitArgs} {row : ActRow}

/-! ### What a row rests on -/

/-- **A name of the registry, born inside a cut.** -/
def Registered (db : Tables) (kind name : String) (cut : Jsonb) : Prop :=
  ∃ r ∈ db.registry, r.kind = kind ∧ r.name = name ∧ cut.hasKey r.bornAt = true

/-- **The Rules of a row**: a non-empty array of distinct hashes, each that of a Rule of the
registry that was born inside the row's cut. -/
def Ruled (db : Tables) (row : ActRow) : Prop :=
  ∃ l, row.ruleHashes = some (.strings l) ∧ l ≠ [] ∧ l.Nodup ∧ ∀ h ∈ l, isHash h = true ∧
    ∃ r ∈ db.registry, r.kind = "rule" ∧ r.hash = h ∧ row.registryCut.hasKey r.bornAt = true

/-- **What the law asks of a row besides its Rules.** -/
structure Grounded (db : Tables) (row : ActRow) : Prop where
  /-- The cut is an array of hashes of Acts. -/
  registryCut : ListsActs db.acts row.registryCut
  commandType : ∃ commandType, row.commandType = some commandType ∧
    Registered db "command_type" commandType row.registryCut
  actType : Registered db "act_type" row.actType row.registryCut
  identity : db.identities.get? row.identityHash ≠ none
  context : db.objects.get? row.contextHash ≠ none
  payload : db.objects.get? row.payloadHash ≠ none

/-- **A row is lawful**: it has Rules, and the rest is in order. -/
structure Lawful (db : Tables) (row : ActRow) : Prop where
  ruled : Ruled db row
  grounded : Grounded db row

/-! ### What the function has seen -/

theorem hasKey_holds {cut : Jsonb} {key : String} :
    (hasKey (some cut) (some key)).Holds ↔ cut.hasKey key = true := by
  rw [hasKey]
  exact Truth.holds_some

theorem registeredName_iff {kind : String} {name : Option String} {cut : Jsonb} :
    db.registeredName kind name (some cut) = true ↔
      ∃ n, name = some n ∧ Registered db kind n cut := by
  simp only [registeredName, List.any_eq_true, decide_eq_true_eq, Truth.holds_and,
    Truth.holds_some, holds_equals, hasKey_holds]
  constructor
  · rintro ⟨r, hr, hkind, hname, hborn⟩
    exact ⟨r.name, hname, r, hr, hkind, rfl, hborn⟩
  · rintro ⟨n, rfl, r, hr, hkind, rfl, hborn⟩
    exact ⟨r, hr, hkind, rfl, hborn⟩

theorem registeredRule_iff {cut : Jsonb} {h : Hash} :
    db.registeredRule (some cut) (some h) = true ↔
      ∃ r ∈ db.registry, r.kind = "rule" ∧ r.hash = h ∧ cut.hasKey r.bornAt = true := by
  simp only [registeredRule, List.any_eq_true, decide_eq_true_eq, Truth.holds_and,
    Truth.holds_some, holds_equals, hasKey_holds, Option.some_inj]
  refine exists_congr fun r => and_congr_right fun _ => ?_
  constructor
  · rintro ⟨rfl, hkind, hborn⟩
    exact ⟨hkind, rfl, hborn⟩
  · rintro ⟨hkind, rfl, hborn⟩
    exact ⟨rfl, hkind, hborn⟩

/-- **What is known once the checks of the function have passed**, of the references and the
Rules. -/
structure Passed (db : Tables) (p : CommitArgs) : Prop where
  arrays : ¬(malformedArrays p).Holds
  counted : ∃ rules, arrayLength p.ruleHashes = .ok rules ∧
    ¬Truth.Holds (rules.map fun n => n = 0)
  identity : db.hasIdentity p.identityHash = true
  context : db.hasObject p.contextHash = true
  payload : db.hasObject p.payloadHash = true
  commandType : db.registeredName "command_type" p.commandType p.registryCut = true
  actType : db.registeredName "act_type" p.actType p.registryCut = true
  rulesKnown : ∃ wanted, elementsText p.ruleHashes = .ok wanted ∧
    ∀ h ∈ wanted, db.registeredRule p.registryCut h = true

theorem checkCommit_passed {x : Unit} (h : db.checkCommit p = .ok x) : Passed db p := by
  rw [checkCommit] at h
  obtain ⟨-, h⟩ := refuse_bind_ok.mp h
  obtain ⟨-, h⟩ := refuse_bind_ok.mp h
  obtain ⟨harrays, h⟩ := refuse_bind_ok.mp h
  obtain ⟨rules, hrules, h⟩ := bind_ok.mp h
  obtain ⟨hcounted, h⟩ := refuse_bind_ok.mp h
  obtain ⟨-, h⟩ := refuse_bind_ok.mp h
  obtain ⟨listed, -, h⟩ := bind_ok.mp h
  obtain ⟨-, h⟩ := refuse_bind_ok.mp h
  obtain ⟨hidentity, h⟩ := refuse_bind_ok.mp h
  obtain ⟨hcontext, h⟩ := refuse_bind_ok.mp h
  obtain ⟨hpayload, h⟩ := refuse_bind_ok.mp h
  obtain ⟨unknownParent, -, h⟩ := bind_ok.mp h
  obtain ⟨-, h⟩ := refuse_bind_ok.mp h
  obtain ⟨unknownRegistered, -, h⟩ := bind_ok.mp h
  obtain ⟨-, h⟩ := refuse_bind_ok.mp h
  obtain ⟨unknownLink, -, h⟩ := bind_ok.mp h
  obtain ⟨-, h⟩ := refuse_bind_ok.mp h
  obtain ⟨hcommand, h⟩ := refuse_bind_ok.mp h
  obtain ⟨hact, h⟩ := refuse_bind_ok.mp h
  obtain ⟨wanted, hwanted, h⟩ := bind_ok.mp h
  have hstray := refuse_ok.mp h
  rw [Bool.not_eq_false] at hidentity hcontext hpayload hcommand hact
  refine ⟨harrays, ⟨rules, hrules, hcounted⟩, hidentity, hcontext, hpayload, hcommand, hact,
    wanted, hwanted, fun h hh => ?_⟩
  by_contra hunknown
  rw [Bool.not_eq_true] at hunknown
  exact hstray (List.any_eq_true.mpr ⟨h, hh, decide_eq_true hunknown⟩)

/-- The references of a row that passed are in order. -/
theorem Passed.grounded (h : Passed db p) (hrow : p.row = some row)
    (hcut : ListsActs db.acts row.registryCut) : Grounded db row := by
  rw [CommitArgs.eq_of_row hrow] at h
  obtain ⟨n, hn, hactType⟩ := registeredName_iff.mp h.actType
  cases hn
  exact {
    registryCut := hcut
    commandType := registeredName_iff.mp h.commandType
    actType := hactType
    identity := Option.isSome_iff_ne_none.mp h.identity
    context := Option.isSome_iff_ne_none.mp h.context
    payload := Option.isSome_iff_ne_none.mp h.payload }

/-- **An array of Rules that passed is in order.** -/
theorem Passed.ruled {value : Jsonb} (h : Passed db p) (hrow : p.row = some row)
    (hvalue : row.ruleHashes = some value) : Ruled db row := by
  rw [CommitArgs.eq_of_row hrow, hvalue] at h
  have harrays := h.arrays
  simp only [malformedArrays, Truth.holds_or, Truth.holds_not, not_or] at harrays
  obtain ⟨l, rfl, hhashes, hnodup⟩ := isHashArray_iff.mp (isHashArray_of_not_fails harrays.2.2.2.2)
  refine ⟨l, hvalue, ?_, hnodup, fun x hx => ⟨hhashes x hx, registeredRule_iff.mp ?_⟩⟩
  · -- An empty array is counted, and refused.
    rintro rfl
    obtain ⟨rules, hrules, hcounted⟩ := h.counted
    rw [arrayLength, Jsonb.arrayLength_strings] at hrules
    cases hrules
    exact hcounted rfl
  · obtain ⟨wanted, hwanted, hknown⟩ := h.rulesKnown
    rw [elementsText, Jsonb.elementsText_strings] at hwanted
    cases hwanted
    exact hknown (some x) (List.mem_map_of_mem hx)

/-- **A call that inserts a row has passed the checks.** -/
theorem passed_of_inserted (h : (db.call p).2.acts = db.acts ++ [row]) :
    Passed db p ∧ p.row = some row ∧ ListsActs db.acts row.registryCut := by
  have hgrew : (db.call p).2.acts ≠ db.acts := by
    rw [h]
    simp
  rcases call_cases db p with hkept | ⟨r, hinserted⟩
  · exact absurd hkept hgrew
  · have hlast := hinserted.acts.symm.trans h
    rw [List.append_cancel_left_eq, List.singleton_inj] at hlast
    subst hlast
    refine ⟨?_, hinserted.made, hinserted.builtOn.registryCut⟩
    rcases hfound : db.existing p.actHash with _ | found
    · rw [call_of_new hfound] at hgrew
      rcases hinsertion : db.insertion p with e | ⟨r', t⟩
      · rw [hinsertion] at hgrew
        exact absurd rfl hgrew
      · obtain ⟨_, hcheck, -⟩ := bind_ok.mp hinsertion
        exact checkCommit_passed hcheck
    · rw [call_of_existing hfound] at hgrew
      exact absurd rfl hgrew

/-- **No Act enters the database without Rules, unless the Rules are null.** Whatever the
tables are and whatever the function is called with: a row that the call inserts is in
order, Rules apart; and its Rules are in order exactly when the argument they came in was
not null. -/
theorem lawful_iff (db : Tables) (p : CommitArgs) (row : ActRow)
    (h : (db.call p).2.acts = db.acts ++ [row]) :
    Grounded db row ∧ (Lawful db row ↔ p.ruleHashes ≠ none) := by
  obtain ⟨hpassed, hrow, hcut⟩ := passed_of_inserted h
  have hgrounded := hpassed.grounded hrow hcut
  have hrules : p.ruleHashes = row.ruleHashes := by rw [CommitArgs.eq_of_row hrow]
  refine ⟨hgrounded, fun hlawful hnone => ?_, fun hsome => ?_⟩
  · obtain ⟨l, hl, -⟩ := hlawful.ruled
    rw [← hrules, hnone] at hl
    cases hl
  · obtain ⟨value, hvalue⟩ := Option.ne_none_iff_exists'.mp hsome
    exact ⟨hpassed.ruled hrow (hrules ▸ hvalue), hgrounded⟩

end Tables

/-! ### Examples -/

namespace Sample

/-- The call that commits a thing, its Rules null. -/
def commitUnruled : CommitArgs := { commitThing with ruleHashes := none }

/-- Both calls insert a row. -/
theorem length_committed :
    (tables.call commitThing).2.acts.length = 2 ∧
      (tables.call commitUnruled).2.acts.length = 2 := by
  decide +kernel

end Sample

/-- A call that grows the Acts has inserted a row. -/
theorem Tables.exists_inserted (db : Tables) (p : CommitArgs)
    (h : (db.call p).2.acts.length ≠ db.acts.length) :
    ∃ row, (db.call p).2.acts = db.acts ++ [row] := by
  rcases call_cases db p with hkept | ⟨row, hinserted⟩
  · exact absurd (congrArg List.length hkept) h
  · exact ⟨row, hinserted.acts⟩

/-- A thing is committed with its Rules. -/
theorem Tables.lawful_thing : ∃ row,
    (Sample.tables.call Sample.commitThing).2.acts = Sample.tables.acts ++ [row] ∧
      Lawful Sample.tables row := by
  obtain ⟨row, hrow⟩ := exists_inserted Sample.tables Sample.commitThing (by
    rw [Sample.length_committed.1]
    decide)
  exact ⟨row, hrow, (lawful_iff Sample.tables Sample.commitThing row hrow).2.mpr (by decide)⟩

/-- **A row without Rules is inserted** when the argument is null. -/
theorem Tables.not_lawful_unruled :
    ¬∀ row, (Sample.tables.call Sample.commitUnruled).2.acts = Sample.tables.acts ++ [row] →
      Lawful Sample.tables row := by
  intro hall
  obtain ⟨row, hrow⟩ := exists_inserted Sample.tables Sample.commitUnruled (by
    rw [Sample.length_committed.2]
    decide)
  obtain ⟨l, hl, -⟩ := (hall row hrow).ruled
  have hnull : row.ruleHashes = none := by
    have hmade := (passed_of_inserted hrow).2.1
    have heq : Sample.commitUnruled.ruleHashes = row.ruleHashes := by
      rw [CommitArgs.eq_of_row hmade]
    exact heq.symm
  rw [hnull] at hl
  cases hl

end PowerfarmKernel
