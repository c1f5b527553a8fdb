import PowerfarmKernel.Kernel.Json
import PowerfarmKernel.Ledger.Representation
import PowerfarmKernel.Lib.Base64
import PowerfarmKernel.Lib.HashChain

/-!
# The genesis ceremony

`ceremony` of `genesis/ceremony.py` makes the five Acts of genesis from the bytes of a
configuration. Each names the one before it, and all name the hash of the configuration;
the hash of the last is the root.

The root commits to all of it (`PowerfarmKernel.Genesis.root_commits`): under a
canonicalizer that is injective on JSON values and a digest without collisions, no other
configuration has this root, and no other chain of records of any length ends in it.
-/

namespace PowerfarmKernel

namespace Genesis

variable (P : Primitives)

/-! ### The ceremony -/

/-- A record: a mapping with a hash among its items. -/
abbrev Record := List (String × CanonValue)

/-- `ORDER`. -/
def order : List String :=
  ["GenesisCreated", "RegistryCreated", "RootIdentityCreated", "RootAuthorityGranted",
    "GenesisClosed"]

/-- What is hashed of an Act of genesis. -/
def value (actType : String) (configHash : Hash) (parent : Option Hash) : Record :=
  [("act_type", .str actType), ("config_hash", .str configHash),
    ("parents", strings parent.toList)]

/-- One round of the ceremony's loop. -/
def perform (configHash : Hash) (state : Option Hash × List Record) (actType : String) :
    Except Raised (Option Hash × List Record) := do
  let value := value actType configHash state.1
  let parent ← objectHash P "genesis_act" (.dict value)
  return (some parent, state.2 ++ [value ++ [("hash", .str parent)]])

/-- **`ceremony`**: the root and the Acts. Its assertion that there is a root is
`PowerfarmKernel.Genesis.isSome_of_ceremony`. -/
def ceremony (configBytes : Bytes) : Except Raised (Option Hash × List Record) := do
  let configHash ← objectHash P "genesis_config"
    (.str (.ofList (Base64.urlsafeEncode configBytes)))
  order.foldlM (perform P configHash) (none, [])

/-! ### Chains of records -/

/-- The record without its hash. -/
def withoutHash (record : Record) : Record := record.filter fun item => item.1 ≠ "hash"

/-- **A record is linked**: its only parent, if any, is the one given, and its hash is that
of the record without it. -/
structure Linked (parent : Option Hash) (record : Record) (h : Hash) : Prop where
  hash : field record "hash" = some (.str h)
  parents : field record "parents" = some (strings parent.toList)
  hashed : objectHash P "genesis_act" (.dict (withoutHash record)) = .ok h

/-- Two records are equal as mappings. -/
def SameRecord (record record' : Record) : Prop :=
  ∀ key, field record key = field record' key

variable {P}

theorem field_withoutHash {record : Record} {key : String} (hkey : key ≠ "hash") :
    field (withoutHash record) key = field record key := by
  induction record with
  | nil => rfl
  | cons item record ih =>
    obtain ⟨key', v⟩ := item
    rw [field, withoutHash] at ih
    rw [field, field, withoutHash, List.filter_cons]
    by_cases hhash : key' = "hash"
    · rw [if_neg (by simpa using hhash), List.lookup_cons, hhash, beq_false_of_ne hkey, ih]
      rfl
    · rw [if_pos (by simpa using hhash), List.lookup_cons, List.lookup_cons, ih]
      rfl

/-- **A hash binds its record**, and the parent the record names. -/
theorem binding_linked (hdumps : P.InjectiveOnJson) (hsha : Function.Injective P.sha256) :
    HashChain.Binding (Linked P) fun r r' => SameJson (.dict r) (.dict r') := by
  intro p p' r r' h hr hr'
  have hsame : SameJson (.dict (withoutHash r)) (.dict (withoutHash r')) :=
    sameJson_of_objectHash hdumps hsha hr.hashed hr'.hashed
  have hnot : "parents" ≠ "hash" := by decide
  constructor
  · have hparents := hsame.field "parents" ((field_withoutHash hnot).trans hr.parents)
      ((field_withoutHash hnot).trans hr'.parents)
    have hlists : p.toList = p'.toList := hparents.strings
    rcases p with _ | p
    · rcases p' with _ | p'
      · rfl
      · cases hlists
    · rcases p' with _ | p'
      · cases hlists
      · rw [List.singleton_inj.mp hlists]
  · refine .dict (fun key => ?_) (fun key v w hv hw => ?_)
    · by_cases hkey : key = "hash"
      · rw [hkey, hr.hash, hr'.hash]
      · have hr'key : field (withoutHash r') key = field r' key := field_withoutHash hkey
        rw [← field_withoutHash hkey, ← hr'key]
        exact hsame.isSome_field key
    · by_cases hkey : key = "hash"
      · rw [hkey] at hv hw
        rw [hr.hash] at hv
        rw [hr'.hash] at hw
        cases hv
        cases hw
        exact .refl _
      · rw [← field_withoutHash hkey] at hv hw
        exact hsame.field key hv hw

/-! ### What the ceremony makes -/

/-- **An Act of genesis**: what was hashed, with its hash. -/
def act (actType : String) (configHash : Hash) (parent : Option Hash) (h : Hash) : Record :=
  value actType configHash parent ++ [("hash", .str h)]

theorem linked_act {actType : String} {configHash h : Hash} {parent : Option Hash}
    (hhash : objectHash P "genesis_act" (.dict (value actType configHash parent)) = .ok h) :
    Linked P parent (act actType configHash parent h) h := ⟨rfl, rfl, hhash⟩

/-- **The state of the loop** after some rounds: a chain of Acts of these types, each with
the hash of the configuration, and the hash it ends in. -/
structure Performed (P : Primitives) (configHash : Hash) (types : List String)
    (state : Option Hash × List Record) : Prop where
  made : List.Forall₂ (fun actType record => ∃ parent h, record = act actType configHash parent h)
    types state.2
  start : state.1 = none → types = []
  chain : ∀ root, state.1 = some root → HashChain.Chain (Linked P) state.2 root

/-- One round of the loop. -/
theorem Performed.perform {configHash : Hash} {types : List String} {actType : String}
    {state state' : Option Hash × List Record} (h : Performed P configHash types state)
    (hround : perform P configHash state actType = .ok state') :
    Performed P configHash (types ++ [actType]) state' := by
  obtain ⟨parent, acts⟩ := state
  rw [Genesis.perform] at hround
  rcases hhash : objectHash P "genesis_act" (.dict (value actType configHash parent)) with e | root
  · rw [hhash] at hround
    cases hround
  rw [hhash] at hround
  cases hround
  have hlinked := linked_act hhash
  refine ⟨List.rel_append h.made (.cons ⟨parent, root, rfl⟩ .nil),
    fun hnone => (by cases hnone), ?_⟩
  rintro root' hroot
  cases hroot
  rcases parent with _ | parent
  · -- The first round: nothing was made before it.
    have hnil : acts = [] := List.forall₂_nil_left_iff.mp (h.start rfl ▸ h.made)
    rw [hnil]
    exact .first hlinked
  · exact .next (h.chain parent rfl) hlinked

/-- All rounds of the loop. -/
theorem performed_foldlM {configHash : Hash} {types todo : List String}
    {state state' : Option Hash × List Record} (h : Performed P configHash types state)
    (hloop : todo.foldlM (perform P configHash) state = .ok state') :
    Performed P configHash (types ++ todo) state' := by
  induction todo generalizing types state with
  | nil =>
    cases hloop
    rw [List.append_nil]
    exact h
  | cons actType todo ih =>
    rw [List.foldlM_cons] at hloop
    rcases hround : perform P configHash state actType with e | next
    · rw [hround] at hloop
      cases hloop
    · rw [hround] at hloop
      have hrest := ih (h.perform hround) hloop
      rwa [List.append_assoc, List.singleton_append] at hrest

theorem ceremony_of_configHash {configBytes : Bytes} {configHash : Hash}
    (h : objectHash P "genesis_config" (.str (.ofList (Base64.urlsafeEncode configBytes)))
      = .ok configHash) :
    ceremony P configBytes = order.foldlM (perform P configHash) (none, []) := by
  rw [ceremony, h]
  rfl

/-- **What the ceremony returns**: a chain of Acts in their order, under the hash of the
configuration. -/
theorem ceremony_ok {configBytes : Bytes} {state : Option Hash × List Record}
    (h : ceremony P configBytes = .ok state) : ∃ configHash,
      objectHash P "genesis_config" (.str (.ofList (Base64.urlsafeEncode configBytes)))
        = .ok configHash ∧ Performed P configHash order state := by
  rcases hconfig : objectHash P "genesis_config"
      (.str (.ofList (Base64.urlsafeEncode configBytes))) with e | configHash
  · rw [ceremony, hconfig] at h
    cases h
  · rw [ceremony_of_configHash hconfig] at h
    exact ⟨configHash, rfl, performed_foldlM ⟨.nil, fun _ => rfl, fun _ h => (by cases h)⟩ h⟩

/-- **The assertion of the ceremony holds**: there is a root. -/
theorem isSome_of_ceremony {configBytes : Bytes} {state : Option Hash × List Record}
    (h : ceremony P configBytes = .ok state) : state.1.isSome := by
  obtain ⟨_, -, hperformed⟩ := ceremony_ok h
  rcases hroot : state.1 with _ | root
  · exact absurd (hperformed.start hroot) (by decide)
  · rfl

/-! ### What the root commits to -/

/-- A record that stands for the same JSON value as an Act of genesis is equal to it: all
the Act has are strings and a list of strings. -/
theorem sameRecord_of_sameJson {record : Record} {actType : String} {configHash h : Hash}
    {parent : Option Hash}
    (hsame : SameJson (.dict record) (.dict (act actType configHash parent h))) :
    SameRecord record (act actType configHash parent h) := by
  intro key
  rcases hw : field (act actType configHash parent h) key with _ | w
  · have hnone := (hsame.isSome_field key).not
    rw [hw] at hnone
    exact Option.not_isSome_iff_eq_none.mp (hnone.mpr (by decide))
  · obtain ⟨v, hv⟩ := Option.isSome_iff_exists.mp
      ((hsame.isSome_field key).mpr (by rw [hw]; rfl))
    have hvw := hsame.field key hv hw
    obtain ⟨l₁, l₂, hitems, -⟩ := List.lookup_eq_some_iff.mp hw
    have hmem : (key, w) ∈ act actType configHash parent h := by
      rw [hitems]
      exact List.mem_append_right _ List.mem_cons_self
    simp only [act, value, List.cons_append, List.nil_append, List.mem_cons, List.not_mem_nil,
      or_false, Prod.mk.injEq] at hmem
    rw [hv]
    rcases hmem with ⟨-, rfl⟩ | ⟨-, rfl⟩ | ⟨-, rfl⟩ | ⟨-, rfl⟩
    · rw [hvw.eq_str]
    · rw [hvw.eq_str]
    · rw [hvw.eq_strings]
    · rw [hvw.eq_str]

theorem sameRecords_of_sameJson {types : List String} {records acts : List Record}
    {configHash : Hash} (hmade : List.Forall₂ (fun actType record => ∃ parent h,
      record = act actType configHash parent h) types acts)
    (hsame : List.Forall₂ (fun r r' => SameJson (.dict r) (.dict r')) records acts) :
    List.Forall₂ SameRecord records acts := by
  induction hsame generalizing types with
  | nil => exact .nil
  | cons hhead _ ih =>
    obtain _ | ⟨⟨parent, h, rfl⟩, hrest⟩ := hmade
    exact .cons (sameRecord_of_sameJson hhead) (ih hrest)

/-- **The genesis root commits to the whole ceremony.** Under a canonicalizer that is
injective on JSON values and a digest without collisions: the Acts of a ceremony are a chain
in their order, no other configuration has its root, and every chain of records that ends in
the root consists of these Acts. -/
theorem root_commits (P : Primitives) (hdumps : P.InjectiveOnJson)
    (hsha : Function.Injective P.sha256) (configBytes : Bytes) (root : Hash) (acts : List Record)
    (h : ceremony P configBytes = .ok (some root, acts)) :
    (acts.map (fun record => stringField record "act_type") = order.map some ∧
        HashChain.Chain (Linked P) acts root) ∧
      (∀ configBytes' acts', ceremony P configBytes' = .ok (some root, acts') →
        configBytes' = configBytes) ∧
      ∀ records, HashChain.Chain (Linked P) records root →
        List.Forall₂ SameRecord records acts := by
  obtain ⟨configHash, hconfig, hperformed⟩ := ceremony_ok h
  have hchain : HashChain.Chain (Linked P) acts root := hperformed.chain root rfl
  have hmade : List.Forall₂ (fun actType record => ∃ parent h,
      record = act actType configHash parent h) order acts := hperformed.made
  have hunique := fun records (hrecords : HashChain.Chain (Linked P) records root) =>
    HashChain.Chain.unique (binding_linked hdumps hsha) hrecords hchain
  refine ⟨⟨?_, hchain⟩, ?_, ?_⟩
  · refine List.forall₂_eq_eq_eq ▸ ?_
    rw [List.forall₂_map_left_iff, List.forall₂_map_right_iff]
    refine hmade.flip.imp fun record actType hrecord => ?_
    obtain ⟨parent, h, rfl⟩ := hrecord
    rfl
  · -- The first Acts have one hash of the configuration, and it has one configuration.
    intro configBytes' acts' h'
    obtain ⟨configHash', hconfig', hperformed'⟩ := ceremony_ok h'
    have hrecords := hunique acts' (hperformed'.chain root rfl)
    have hmade' : List.Forall₂ (fun actType record => ∃ parent h,
      record = act actType configHash' parent h) order acts' := hperformed'.made
    obtain _ | ⟨⟨parent, k, rfl⟩, -⟩ := hmade
    obtain _ | ⟨⟨parent', k', rfl⟩, -⟩ := hmade'
    obtain _ | ⟨hfirst, -⟩ := hrecords
    have hhash : configHash' = configHash := (hfirst.field "config_hash" rfl rfl).str
    rw [hhash] at hconfig'
    have htext := (sameJson_of_objectHash hdumps hsha hconfig' hconfig).str
    exact Base64.urlsafeEncode_injective (String.ofList_injective htext)
  · intro records hrecords
    exact sameRecords_of_sameJson hmade (hunique records hrecords)

/-- What a ceremony hashes after a parent, by a digest that spells its input out. -/
def spelledValues (configHash : Hash) : Option Hash → List String → List CanonValue
  | _, [] => []
  | parent, actType :: types =>
      .dict (value actType configHash parent) :: spelledValues configHash
        (some (Sample.spelled "genesis_act" (.dict (value actType configHash parent)))) types

/-- The loop runs through where what it hashes is written down. -/
theorem isOk_foldlM_spelled {written : List CanonValue} {configHash : Hash} (types : List String)
    (parent : Option Hash) (acts : List Record)
    (hwritten : spelledValues configHash parent types ⊆ written) :
    ∃ state, types.foldlM (perform (Sample.spellingOf written) configHash) (parent, acts)
      = .ok state := by
  induction types generalizing parent acts with
  | nil => exact ⟨_, rfl⟩
  | cons actType types ih =>
    rw [spelledValues, List.cons_subset] at hwritten
    have hhash := Sample.objectHash_spellingOf "genesis_act" (by decide) hwritten.1
    rw [List.foldlM_cons, perform, hhash]
    exact ih _ _ hwritten.2

/-- What the ceremony of the configuration `pf` hashes. -/
def spelledCeremony : List CanonValue :=
  .str "cGY=" :: spelledValues (Sample.spelled "genesis_config" (.str "cGY=")) none order

/-- The ceremony of the configuration `pf` has a root, and no other configuration has it. -/
theorem root_commits_sample : ∃ root acts,
    ceremony (Sample.spellingOf spelledCeremony) [112, 102] = .ok (some root, acts) ∧
    acts.length = 5 ∧
    ∀ configBytes' acts',
      ceremony (Sample.spellingOf spelledCeremony) configBytes' = .ok (some root, acts') →
      configBytes' = [112, 102] := by
  obtain ⟨⟨parent, acts⟩, hstate⟩ :
      ∃ state, ceremony (Sample.spellingOf spelledCeremony) [112, 102] = .ok state := by
    have hencoded : String.ofList (Base64.urlsafeEncode [112, 102]) = "cGY=" := by decide +kernel
    have hmem : CanonValue.str "cGY=" ∈ spelledCeremony := List.mem_cons_self
    have hconfig := Sample.objectHash_spellingOf "genesis_config" (by decide) hmem
    rw [← hencoded] at hconfig
    rw [ceremony_of_configHash hconfig, hencoded]
    refine isOk_foldlM_spelled order none [] ?_
    rw [spelledCeremony]
    exact List.subset_cons_self _ _
  have hdumps : (Sample.spellingOf spelledCeremony).InjectiveOnJson :=
    Sample.injectiveOnJson_spellingOf (by decide +kernel)
  obtain ⟨root, hroot⟩ := Option.isSome_iff_exists.mp (isSome_of_ceremony hstate)
  change parent = some root at hroot
  rw [hroot] at hstate
  have hcommits := root_commits (Sample.spellingOf spelledCeremony) hdumps
    Sample.decode_injective [112, 102] root acts hstate
  refine ⟨root, acts, hstate, ?_, hcommits.2.1⟩
  have hlength := congrArg List.length hcommits.1.1
  rwa [List.length_map, List.length_map] at hlength

end Genesis

end PowerfarmKernel
