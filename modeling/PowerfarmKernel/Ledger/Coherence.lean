import Mathlib.Data.List.Count
import PowerfarmKernel.Kernel.Index
import PowerfarmKernel.Ledger.Representation
import PowerfarmKernel.Lib.WriteOnce

/-!
# The dictionaries of a store move together

`MemoryStore` keeps an Act in three places: its bytes among the objects, the Act in history,
and its hash in the index of its Command. Three methods write to them, and each can return
early or raise, `commit_act` also between two writes.

`PowerfarmKernel.StoreCall.Effect` says once what a call can do, and
`PowerfarmKernel.StoreCall.exec_promises` what follows for every run: history is keyed by
the hashes of its Acts, the index divides it by Command in the order of insertion, no object
is written over, and a call that raises leaves no trace. `append_act` stores no object, and
an Act it has put there is one that `commit_act` finds; so an Act can be without its object,
and `PowerfarmKernel.MemoryStore.Bare` says which.
-/

namespace PowerfarmKernel

open Runs

namespace MemoryStore

/-- `MemoryStore()`. -/
def fresh : MemoryStore where
  objects := Dict.empty
  acts := Dict.empty
  commandIndex := Dict.empty
  registry := []

variable (s : MemoryStore)

/-- The stored Acts of a Command, oldest first. -/
def actsOf (commandHash : Hash) : List Act :=
  s.acts.values.filter fun a => a.commandHash = commandHash

/-- The hashes indexed under a Command. -/
def indexed (commandHash : Hash) : List Hash := (s.commandIndex.get? commandHash).getD []

/-- **The dictionaries agree**: every Act stands under its own hash, and the index of a
Command lists its stored Acts, oldest first. -/
structure Coherent : Prop where
  keyed : ∀ k a, s.acts.get? k = some a → a.hash = k
  indexed : ∀ commandHash, s.indexed commandHash = (s.actsOf commandHash).map Act.hash

/-- An Act is stored without its object. -/
def Bare (k : Hash) : Prop :=
  (∃ a, s.acts.get? k = some a) ∧ ∀ canon, s.objects.get? k ≠ some (canon, "act")

/-- The store with an Act appended, and indexed under its Command. -/
def appended (act : Act) : MemoryStore :=
  { s with
    acts := s.acts.set act.hash act
    commandIndex := s.commandIndex.set act.commandHash (s.indexed act.commandHash ++ [act.hash]) }

variable {s} {act a : Act} {k commandHash : Hash}

/-! ### What the index of a coherent store says -/

theorem mem_actsOf_iff :
    a ∈ s.actsOf commandHash ↔ ∃ k, s.acts.get? k = some a ∧ a.commandHash = commandHash := by
  rw [actsOf, List.mem_filter, Dict.mem_values_iff, decide_eq_true_eq, exists_and_right]

theorem Coherent.get?_hash (h : s.Coherent) (ha : a ∈ s.actsOf commandHash) :
    s.acts.get? a.hash = some a ∧ a.commandHash = commandHash := by
  obtain ⟨k, hk, hown⟩ := mem_actsOf_iff.mp ha
  rw [h.keyed k a hk]
  exact ⟨hk, hown⟩

theorem Coherent.mem_indexed_iff (h : s.Coherent) : k ∈ s.indexed commandHash ↔
    ∃ a, s.acts.get? k = some a ∧ a.commandHash = commandHash := by
  rw [h.indexed, List.mem_map]
  constructor
  · rintro ⟨a, ha, rfl⟩
    exact ⟨a, h.get?_hash ha⟩
  · rintro ⟨a, ha, hown⟩
    exact ⟨a, mem_actsOf_iff.mpr ⟨k, ha, hown⟩, h.keyed k a ha⟩

/-- No Act is indexed twice. -/
theorem Coherent.nodup_indexed (h : s.Coherent) (commandHash : Hash) :
    (s.indexed commandHash).Nodup := by
  have hkeys : s.acts.values.map Act.hash = s.acts.keys := by
    rw [Dict.values, Dict.keys, List.map_map]
    refine List.map_congr_left ?_
    rintro ⟨k, a⟩ hmem
    exact h.keyed k a (Dict.get?_eq_some_iff.mpr hmem)
  have hnodup : s.acts.keys.Nodup := s.acts.nodup
  rw [h.indexed, actsOf]
  exact (hkeys ▸ hnodup).sublist (List.filter_sublist.map Act.hash)

/-- **The index divides history**: an Act is listed once, under its Command, and nothing else
is listed. -/
theorem Coherent.count_indexed (h : s.Coherent) (commandHash k : Hash) :
    (s.indexed commandHash).count k
      = if (s.acts.get? k).any fun a => a.commandHash = commandHash then 1 else 0 := by
  have hmem : k ∈ s.indexed commandHash ↔
      ((s.acts.get? k).any fun a => a.commandHash = commandHash) = true := by
    rw [h.mem_indexed_iff, Option.any_eq_true]
    simp only [decide_eq_true_eq]
  rw [(h.nodup_indexed commandHash).count]
  simp only [hmem]

/-- **A Command is told its stored Acts**, oldest first. -/
theorem Coherent.getActsForCommand (h : s.Coherent) (commandHash : Hash) :
    s.getActsForCommand commandHash = .ok (s.actsOf commandHash) := by
  have hindex : (s.commandIndex.get? commandHash).getD []
      = (s.actsOf commandHash).map Act.hash := h.indexed commandHash
  rw [getActsForCommand_ok_iff, hindex, List.forall₂_map_left_iff, List.forall₂_same]
  intro a ha
  exact (h.get?_hash ha).1

/-! ### An Act takes its place -/

theorem actsOf_appended (hnew : s.acts.get? act.hash = none) (commandHash : Hash) :
    (s.appended act).actsOf commandHash
      = s.actsOf commandHash ++ if act.commandHash = commandHash then [act] else [] := by
  have hvalues : (s.appended act).acts.values = s.acts.values ++ [act] :=
    Dict.values_set_of_notMem (Dict.get?_eq_none_iff.mp hnew)
  rw [actsOf, hvalues, List.filter_append]
  by_cases hc : act.commandHash = commandHash
  · simp [actsOf, hc]
  · simp [actsOf, hc]

theorem indexed_appended (s : MemoryStore) (act : Act) (commandHash : Hash) :
    (s.appended act).indexed commandHash
      = s.indexed commandHash ++ if act.commandHash = commandHash then [act.hash] else [] := by
  have hget : (s.appended act).commandIndex.get? commandHash
      = if commandHash = act.commandHash then some (s.indexed act.commandHash ++ [act.hash])
        else s.commandIndex.get? commandHash := Dict.get?_set
  rw [indexed, hget]
  by_cases hc : commandHash = act.commandHash
  · subst hc
    simp
  · rw [if_neg hc, if_neg (Ne.symm hc), List.append_nil]
    rfl

/-- **A new Act extends history and the index of its Command alike.** -/
theorem Coherent.appended (h : s.Coherent) (hnew : s.acts.get? act.hash = none) :
    (s.appended act).Coherent := by
  constructor
  · intro k a ha
    have hset : (s.acts.set act.hash act).get? k = some a := ha
    rcases Dict.get?_set_cases hset with ⟨rfl, rfl⟩ | ⟨-, hold⟩
    · rfl
    · exact h.keyed k a hold
  · intro commandHash
    rw [indexed_appended, actsOf_appended hnew, List.map_append, h.indexed]
    split
    · rfl
    · rfl

/-- Objects have no part in it. -/
theorem Coherent.of_eq {t : MemoryStore} (h : s.Coherent) (hacts : t.acts = s.acts)
    (hindex : t.commandIndex = s.commandIndex) : t.Coherent := by
  constructor
  · rw [hacts]
    exact h.keyed
  · intro commandHash
    rw [MemoryStore.indexed, actsOf, hacts, hindex]
    exact h.indexed commandHash

theorem Coherent.withAct (h : s.Coherent) (hnew : s.acts.get? act.hash = none) (canon : Bytes) :
    (s.withAct act canon).Coherent :=
  (h.appended hnew).of_eq rfl rfl

theorem coherent_fresh : fresh.Coherent := by
  constructor
  · intro k a ha
    cases ha
  · intro commandHash
    rfl

end MemoryStore

/-- **A call of a method that writes to the store.** -/
inductive StoreCall : Type
  | putObject (objectHash : Hash) (canon : Bytes) (kind : String)
  | appendAct (act : Act)
  | commitAct (act : Act) (canon : Bytes) (commandType : String)
deriving DecidableEq

namespace StoreCall

/-- What a call returns or raises, and the store it leaves. -/
def run (s : MemoryStore) : StoreCall → Except Raised (Option Act) × MemoryStore
  | .putObject objectHash canon kind =>
      let result := s.putObject objectHash canon kind
      (result.1.map fun _ => none, result.2)
  | .appendAct act =>
      match s.appendAct act with
      | .ok appended => (.ok none, appended)
      | .error e => (.error e, s)
  | .commitAct act canon _ =>
      let result := s.commitAct act canon
      (result.1.map some, result.2)

/-- What a call returns or raises. -/
def answer (s : MemoryStore) (c : StoreCall) : Except Raised (Option Act) := (run s c).1

/-- The store a call leaves, whether it returns or raises. -/
def step (s : MemoryStore) (c : StoreCall) : MemoryStore := (run s c).2

/-- The store after a sequence of calls. -/
abbrev exec (s : MemoryStore) (calls : List StoreCall) : MemoryStore := Runs.exec step s calls

/-- **The store refuses a call**: an object is to take the place of another one, or an Act to
be appended that is there. -/
def Refused (s : MemoryStore) : StoreCall → Prop
  | .putObject objectHash canon kind => s.objects.Clashes objectHash (canon, kind)
  | .appendAct act => act.hash ∈ s.acts.keys
  | .commitAct act canon _ =>
      s.acts.get? act.hash = none ∧ s.objects.Clashes act.hash (canon, "act")

/-- **What a call does**: it raises, stores an object, appends an Act, finds the Act it is to
commit, or commits it. -/
inductive Effect (s : MemoryStore) :
    StoreCall → Except Raised (Option Act) → MemoryStore → Prop
  /-- A call that raises leaves the store as it was. -/
  | raises (c : StoreCall) (e : Raised) (hrefused : Refused s c) : Effect s c (.error e) s
  /-- An object is stored where there is none, or the same. -/
  | puts (h : Hash) (canon : Bytes) (kind : String) (hfree : ¬s.objects.Clashes h (canon, kind)) :
      Effect s (.putObject h canon kind) (.ok none)
        { s with objects := s.objects.set h (canon, kind) }
  /-- A new Act is appended, without an object. -/
  | appends (act : Act) (hnew : s.acts.get? act.hash = none) :
      Effect s (.appendAct act) (.ok none) (s.appended act)
  /-- There is an Act under the hash of the one to commit. -/
  | finds (act : Act) (canon : Bytes) (commandType : String) (existing : Act)
      (hfound : s.acts.get? act.hash = some existing) :
      Effect s (.commitAct act canon commandType) (.ok (some existing)) s
  /-- A new Act is committed, with its object. -/
  | commits (act : Act) (canon : Bytes) (commandType : String)
      (hnew : s.acts.get? act.hash = none)
      (hfree : ¬s.objects.Clashes act.hash (canon, "act")) :
      Effect s (.commitAct act canon commandType) (.ok (some act)) (s.withAct act canon)

/-- **A commit that returned**: the Act it returns is in history. It is the one that was there,
and then nothing has changed; or it is the one to commit, and is there with its object. -/
structure Committed (s : MemoryStore) (act : Act) (canon : Bytes) (result : Act)
    (t : MemoryStore) : Prop where
  present : t.acts.get? act.hash = some result
  found : s.acts.get? act.hash ≠ none → t = s
  admitted : s.acts.get? act.hash = none →
    result = act ∧ t.objects.get? act.hash = some (canon, "act")
  object : (∃ canon, t.objects.get? act.hash = some (canon, "act")) ↔ ¬s.Bare act.hash

/-- **What a store promises** of the run of some calls. -/
structure Promises (s : MemoryStore) (calls : List StoreCall) : Prop where
  coherent : (exec s calls).Coherent
  /-- The index divides history. -/
  listed : ∀ commandHash k, ((exec s calls).indexed commandHash).count k
    = if ((exec s calls).acts.get? k).any fun a => a.commandHash = commandHash then 1 else 0
  /-- A Command is told its Acts. -/
  answered : ∀ commandHash, (exec s calls).getActsForCommand commandHash
    = .ok ((exec s calls).actsOf commandHash)
  /-- History is extended at its end. -/
  inserted : ∀ pre, pre <+: calls → (exec s pre).acts.entries <+: (exec s calls).acts.entries
  /-- No object is written over, or removed. -/
  objects : ∀ pre, pre <+: calls → (exec s pre).objects ≤ (exec s calls).objects
  /-- A call that raises leaves no trace. -/
  raised : ∀ pre c e, Made calls pre c → answer (exec s pre) c = .error e →
    exec s (pre ++ [c]) = exec s pre
  committed : ∀ pre act canon commandType r, Made calls pre (.commitAct act canon commandType) →
    answer (exec s pre) (.commitAct act canon commandType) = .ok r →
    ∃ result, r = some result ∧ Committed (exec s pre) act canon result
      (exec s (pre ++ [.commitAct act canon commandType]))
  /-- An Act without its object was so at the start, or was appended. -/
  bare : ∀ k, (exec s calls).Bare k → s.Bare k ∨ ∃ pre act, Made calls pre (.appendAct act) ∧
    act.hash = k ∧ (exec s pre).acts.get? k = none

variable {s t : MemoryStore} {c : StoreCall} {r : Except Raised (Option Act)}
  {calls pre : List StoreCall} {k : Hash}

/-! ### What a call does -/

theorem effect (s : MemoryStore) (c : StoreCall) : Effect s c (answer s c) (step s c) := by
  rw [answer, step]
  cases c with
  | putObject h canon kind =>
    rw [run, MemoryStore.putObject]
    by_cases hclash : s.objects.get? h ≠ none ∧ s.objects.get? h ≠ some (canon, kind)
    · simp only [if_pos hclash]
      exact .raises _ _ hclash
    · simp only [if_neg hclash]
      exact .puts h canon kind hclash
  | appendAct act =>
    rw [run, MemoryStore.appendAct]
    by_cases hmem : act.hash ∈ s.acts.keys
    · simp only [if_pos hmem]
      exact .raises _ _ hmem
    · simp only [if_neg hmem]
      exact .appends act (Dict.get?_eq_none_iff.mpr hmem)
  | commitAct act canon commandType =>
    rw [run, MemoryStore.commitAct]
    rcases hfound : s.acts.get? act.hash with _ | existing
    · by_cases hclash : s.objects.get? act.hash ≠ none ∧
        s.objects.get? act.hash ≠ some (canon, "act")
      · simp only [if_pos hclash]
        exact .raises _ _ ⟨hfound, hclash⟩
      · -- Appending does not raise here, so the object is not taken back.
        simp only [if_neg hclash, MemoryStore.appendAct,
          if_neg (Dict.get?_eq_none_iff.mp hfound)]
        exact .commits act canon commandType hfound hclash
    · exact .finds act canon commandType existing hfound

/-- **The calls that raise.** -/
theorem raises_iff : (∃ e, answer s c = .error e) ↔ c.Refused s := by
  have hreturns : ∀ r : Option Act, ¬∃ e : Raised, Except.ok r = .error e := by
    rintro r ⟨e, he⟩
    cases he
  have heffect := effect s c
  generalize answer s c = r at heffect ⊢
  generalize step s c = t at heffect
  cases heffect with
  | raises _ e hrefused => exact iff_of_true ⟨e, rfl⟩ hrefused
  | puts h canon kind hfree => exact iff_of_false (hreturns _) hfree
  | appends act hnew => exact iff_of_false (hreturns _) (Dict.get?_eq_none_iff.mp hnew)
  | finds act canon commandType existing hfound =>
    refine iff_of_false (hreturns _) ?_
    rintro ⟨hnew, -⟩
    rw [hfound] at hnew
    cases hnew
  | commits act canon commandType hnew hfree =>
    exact iff_of_false (hreturns _) fun h => hfree h.2

/-- **One call keeps the dictionaries in agreement.** -/
theorem Effect.coherent (h : Effect s c r t) (hs : s.Coherent) : t.Coherent := by
  cases h with
  | raises => exact hs
  | puts => exact hs.of_eq rfl rfl
  | appends act hnew => exact hs.appended hnew
  | finds => exact hs
  | commits act canon commandType hnew => exact hs.withAct hnew canon

theorem Effect.objects (h : Effect s c r t) : s.objects ≤ t.objects := by
  cases h with
  | raises => exact le_refl _
  | puts h canon kind hfree => exact Dict.le_set_of_not_clashes hfree
  | appends => exact le_refl _
  | finds => exact le_refl _
  | commits act canon commandType hnew hfree => exact Dict.le_set_of_not_clashes hfree

theorem Effect.entries (h : Effect s c r t) : s.acts.entries <+: t.acts.entries := by
  have hset : ∀ act : Act, s.acts.get? act.hash = none →
      s.acts.entries <+: (s.acts.set act.hash act).entries := by
    intro act hnew
    rw [Dict.entries_set_of_notMem (Dict.get?_eq_none_iff.mp hnew)]
    exact List.prefix_append _ _
  cases h with
  | raises => exact List.prefix_rfl
  | puts => exact List.prefix_rfl
  | appends act hnew => exact hset act hnew
  | finds => exact List.prefix_rfl
  | commits act canon commandType hnew => exact hset act hnew

/-- **A call that raises leaves no trace.** -/
theorem Effect.raised {e : Raised} (h : Effect s c (.error e) t) : t = s := by
  cases h
  rfl

/-- A call leaves an Act without its object only by appending it. -/
theorem Effect.bare (h : Effect s c r t) (hbare : t.Bare k) :
    s.Bare k ∨ ∃ act, c = .appendAct act ∧ act.hash = k ∧ s.acts.get? k = none := by
  obtain ⟨⟨a, ha⟩, hobject⟩ := hbare
  -- Objects are never lost, so the object was missing before.
  have hmissing : ∀ canon, s.objects.get? k ≠ some (canon, "act") := fun canon hcanon =>
    hobject canon (h.objects k _ hcanon)
  cases h with
  | raises => exact Or.inl ⟨⟨a, ha⟩, hmissing⟩
  | puts => exact Or.inl ⟨⟨a, ha⟩, hmissing⟩
  | appends act hnew =>
    have hset : (s.acts.set act.hash act).get? k = some a := ha
    rcases Dict.get?_set_cases hset with ⟨rfl, -⟩ | ⟨-, hold⟩
    · exact Or.inr ⟨act, rfl, rfl, hnew⟩
    · exact Or.inl ⟨⟨a, hold⟩, hmissing⟩
  | finds => exact Or.inl ⟨⟨a, ha⟩, hmissing⟩
  | commits act canon commandType hnew =>
    have hset : (s.acts.set act.hash act).get? k = some a := ha
    rcases Dict.get?_set_cases hset with ⟨rfl, -⟩ | ⟨-, hold⟩
    · exact absurd Dict.get?_set_self (hobject canon)
    · exact Or.inl ⟨⟨a, hold⟩, hmissing⟩

/-- **What a commit that returns has done.** -/
theorem Effect.committed {act : Act} {canon : Bytes} {commandType : String} {r : Option Act}
    (h : Effect s (.commitAct act canon commandType) (.ok r) t) :
    ∃ result, r = some result ∧ Committed s act canon result t := by
  cases h with
  | finds act canon commandType existing hfound =>
    refine ⟨existing, rfl, hfound, fun _ => rfl, fun hnew => ?_, ?_⟩
    · rw [hfound] at hnew
      cases hnew
    · rw [MemoryStore.Bare, not_and, not_forall_not]
      exact ⟨fun h _ => h, fun h => h ⟨existing, hfound⟩⟩
  | commits act canon commandType hnew =>
    have hobject : (s.withAct act canon).objects.get? act.hash = some (canon, "act") :=
      Dict.get?_set_self
    refine ⟨act, rfl, Dict.get?_set_self, fun hfound => absurd hnew hfound,
      fun _ => ⟨rfl, hobject⟩, iff_of_true ⟨canon, hobject⟩ ?_⟩
    rintro ⟨⟨a, ha⟩, -⟩
    rw [hnew] at ha
    cases ha

/-! ### Runs -/

theorem exec_coherent (hs : s.Coherent) (calls : List StoreCall) : (exec s calls).Coherent :=
  exec_inv (fun s c => (effect s c).coherent) hs calls

theorem exec_objects (h : pre <+: calls) : (exec s pre).objects ≤ (exec s calls).objects :=
  exec_rel (R := fun s t : MemoryStore => s.objects ≤ t.objects) (fun _ => le_refl _)
    (fun h h' => h.trans h') (fun s c => (effect s c).objects) h

theorem exec_entries (h : pre <+: calls) :
    (exec s pre).acts.entries <+: (exec s calls).acts.entries :=
  exec_rel (R := fun s t : MemoryStore => s.acts.entries <+: t.acts.entries)
    (fun _ => List.prefix_rfl) (fun h h' => h.trans h') (fun s c => (effect s c).entries) h

/-- **An Act without its object** was so at the start, or was appended. -/
theorem exec_bare (h : (exec s calls).Bare k) :
    s.Bare k ∨ ∃ pre act, Made calls pre (.appendAct act) ∧ act.hash = k ∧
      (exec s pre).acts.get? k = none := by
  induction calls using List.reverseRecOn with
  | nil => exact Or.inl h
  | append_singleton calls c ih =>
    rw [exec, exec_concat] at h
    rcases (effect _ c).bare h with hbare | ⟨act, rfl, hk, hnew⟩
    · rcases ih hbare with hinit | ⟨pre, act, hmade, hk, hnew⟩
      · exact Or.inl hinit
      · exact Or.inr ⟨pre, act, made_concat_iff.mpr (Or.inl hmade), hk, hnew⟩
    · exact Or.inr ⟨calls, act, made_concat_iff.mpr (Or.inr ⟨rfl, rfl⟩), hk, hnew⟩

/-- **The dictionaries of a store move together.** In every run from a store whose
dictionaries agree they agree, the index divides the stored Acts by Command, in the order they
were inserted, and every Command is told its own. No object is written over; a call that
raises leaves the store as it was; and an Act that a commit returns is in history, with its
object unless it was found there without. -/
theorem exec_promises (s : MemoryStore) (hs : s.Coherent) (calls : List StoreCall) :
    Promises s calls := by
  have hcoherent := exec_coherent hs calls
  refine {
    coherent := hcoherent
    listed := hcoherent.count_indexed
    answered := hcoherent.getActsForCommand
    inserted := fun pre => exec_entries
    objects := fun pre => exec_objects
    raised := ?_
    committed := ?_
    bare := fun k => exec_bare }
  · intro pre c e _ he
    have heffect := effect (exec s pre) c
    rw [he] at heffect
    rw [exec, exec_concat]
    exact heffect.raised
  · intro pre act canon commandType r _ hr
    have heffect := effect (exec s pre) (.commitAct act canon commandType)
    have hlast : exec s (pre ++ [.commitAct act canon commandType])
        = step (exec s pre) (.commitAct act canon commandType) := exec_concat
    rw [hr] at heffect
    rw [hlast]
    exact heffect.committed

end StoreCall

namespace Sample

/-- A second Act of the genesis Command. -/
def sequel : Act := { genesis "" with hash := "1111" }

/-- Genesis is committed, and again; it is not appended again, nor is its object written over;
and a second Act of its Command is appended. -/
def storeCalls : List StoreCall :=
  [.commitAct (genesis "") (encode "genesis") "Genesis",
    .commitAct (genesis "") (encode "genesis") "Genesis", .appendAct (genesis ""),
    .putObject (genesisHash "") (encode "other") "act", .appendAct sequel]

end Sample

namespace StoreCall

/-- The Command is told both Acts, and the one that was appended has no object. -/
theorem exec_promises_genesis :
    Promises MemoryStore.fresh Sample.storeCalls ∧
      (exec MemoryStore.fresh Sample.storeCalls).actsOf "genesis-command"
        = [Sample.genesis "", Sample.sequel] ∧
      (exec MemoryStore.fresh Sample.storeCalls).Bare "1111" := by
  refine ⟨exec_promises _ MemoryStore.coherent_fresh _, by decide, ⟨Sample.sequel, by decide⟩, ?_⟩
  intro canon h
  cases h

/-- **A commit need not store an object**: it finds an Act that was appended, returns it, and
stores nothing. -/
theorem not_stored_by_commit :
    MemoryStore.fresh.Coherent ∧
    answer (exec MemoryStore.fresh [.appendAct (Sample.genesis "")])
      (.commitAct (Sample.genesis "") (encode "genesis") "Genesis")
        = .ok (some (Sample.genesis "")) ∧
    (exec MemoryStore.fresh [.appendAct (Sample.genesis ""),
      .commitAct (Sample.genesis "") (encode "genesis") "Genesis"]).objects.get?
        (Sample.genesisHash "") = none :=
  ⟨MemoryStore.coherent_fresh, rfl, by decide⟩

end StoreCall

/-! ### The ledger -/

namespace Gate

variable {s : MemoryLedger} {commandHash : Hash}

/-- The hashes of the Acts of a Command are their places. -/
theorem Keyed.map_hash_actsOf (hs : Keyed s) (commandHash : Hash) :
    (actsOf s commandHash).map Act.hash = (entriesOf s commandHash).map Prod.fst := by
  rw [actsOf, List.map_map]
  refine List.map_congr_left ?_
  rintro ⟨k, a⟩ hmem
  exact hs k a (mem_entriesOf_iff.mp hmem).1

theorem actsOf_eq (s : MemoryLedger) (commandHash : Hash) :
    actsOf s commandHash = s.toMemoryStore.actsOf commandHash := by
  rw [MemoryStore.actsOf, Dict.values, List.filter_map]
  rfl

/-- **A coherent store is what the gate relies on**: Acts under their hashes, and an exact
index for every Command. -/
theorem coherent_iff :
    s.toMemoryStore.Coherent ↔ Keyed s ∧ ∀ commandHash, IndexExact s commandHash := by
  constructor
  · intro h
    refine ⟨h.keyed, fun commandHash => ?_⟩
    have hindexed := h.indexed commandHash
    rw [← actsOf_eq, Keyed.map_hash_actsOf h.keyed] at hindexed
    exact hindexed
  · rintro ⟨hkeyed, hexact⟩
    refine ⟨hkeyed, fun commandHash => ?_⟩
    rw [← actsOf_eq, hkeyed.map_hash_actsOf]
    exact hexact commandHash

end Gate

namespace MemoryLedger

variable {known : MemoryLedger → String → String → Cut → Bool} {s : MemoryLedger}

/-- **Whatever an operation of the store protocol does to the dictionaries, they agree
after it.** -/
theorem coherent_handle (hs : s.toMemoryStore.Coherent) (o : LedgerOp) :
    (handle known o s).2.toMemoryStore.Coherent := by
  cases o with
  | putObject h canon kind =>
    exact (StoreCall.effect s.toMemoryStore (.putObject h canon kind)).coherent hs
  | commitAct act canon commandType =>
    exact (StoreCall.effect s.toMemoryStore (.commitAct act canon commandType)).coherent hs
  | _ => exact hs

/-- **Every program of the store protocol keeps them in agreement**, whether it returns or
raises. -/
theorem coherent_run {α : Type} (p : LedgerM α) (hs : s.toMemoryStore.Coherent) :
    (p.run (handle known) s).2.toMemoryStore.Coherent :=
  (Prog.Only.of_forall (φ := fun _ : LedgerOp => True) (fun _ => trivial) p).run_rel
    (h := handle known) (R := fun s t : MemoryLedger =>
      s.toMemoryStore.Coherent → t.toMemoryStore.Coherent) (fun _ => id)
    (fun h h' => h' ∘ h) (fun o _ _ hs => coherent_handle hs o) s hs

end MemoryLedger

end PowerfarmKernel
