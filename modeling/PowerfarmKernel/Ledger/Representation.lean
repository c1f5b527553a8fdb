import PowerfarmKernel.Kernel.History
import PowerfarmKernel.Kernel.Json
import PowerfarmKernel.Ledger.Rows

/-!
# One representation of an Act

An Act is written down four times: as a value in memory, as the mapping that is hashed, as
the bytes stored under that hash, and as a row. `PowerfarmKernel.OneRepresentation` says
that the four agree, with the mapping rebuilt from the Act's own fields
(`PowerfarmKernel.Act.value`).

The mapping determines the Act (`PowerfarmKernel.Act.eq_of_sameJson`), so for a
canonicalizer that is injective on JSON values and a digest without collisions the hash
does. `PowerfarmKernel.Gate.one_representation` draws the conclusions for the runs of the
gate.
-/

namespace PowerfarmKernel

/-! ### The hashed form of a stored Act -/

/-- **The hashed form of an Act**, from its own fields. -/
def Act.value (a : Act) : CanonValue :=
  .dict [("act_type", .str a.actType), ("auth_chain", strings a.authChain),
    ("claimed_when", match a.claimedWhen with
      | some claimed => .str claimed
      | none => .null),
    ("command_hash", .str a.commandHash), ("context_hash", .str a.contextHash),
    ("decision_cut", strings (sorted a.decisionCut)), ("identity_hash", .str a.identityHash),
    ("parents", strings a.parents), ("payload_hash", .str a.payloadHash),
    ("registry_cut", strings (sorted a.registryCut)), ("rule_hashes", strings a.ruleHashes)]

/-- A set is determined by its sorted list. -/
theorem sorted_injective : Function.Injective sorted := by
  intro cut cut' h
  ext k
  rw [← mem_sorted, h, mem_sorted]

/-- The time a claim stands for is determined by what is hashed of it. -/
theorem claimedWhen_eq_of_sameJson {claimed claimed' : Option String}
    (h : SameJson (match claimed with | some claimed => .str claimed | none => .null)
      (match claimed' with | some claimed => .str claimed | none => .null)) :
    claimed = claimed' := by
  rcases claimed with _ | claimed
  · rcases claimed' with _ | claimed'
    · rfl
    · exact absurd h SameJson.not_null_str
  · rcases claimed' with _ | claimed'
    · exact absurd h SameJson.not_str_null
    · rw [h.str]

/-- **The hashed form determines an Act**, but for the hash. -/
theorem Act.eq_of_sameJson {a b : Act} (h : SameJson a.value b.value) (hhash : a.hash = b.hash) :
    a = b := by
  have hactType : a.actType = b.actType := (h.field "act_type" rfl rfl).str
  have hauthChain : a.authChain = b.authChain := (h.field "auth_chain" rfl rfl).strings
  have hclaimed : a.claimedWhen = b.claimedWhen :=
    claimedWhen_eq_of_sameJson (h.field "claimed_when" rfl rfl)
  have hcommand : a.commandHash = b.commandHash := (h.field "command_hash" rfl rfl).str
  have hcontext : a.contextHash = b.contextHash := (h.field "context_hash" rfl rfl).str
  have hdecision : a.decisionCut = b.decisionCut :=
    sorted_injective (h.field "decision_cut" rfl rfl).strings
  have hidentity : a.identityHash = b.identityHash :=
    (h.field "identity_hash" rfl rfl).str
  have hparents : a.parents = b.parents := (h.field "parents" rfl rfl).strings
  have hpayload : a.payloadHash = b.payloadHash := (h.field "payload_hash" rfl rfl).str
  have hregistry : a.registryCut = b.registryCut :=
    sorted_injective (h.field "registry_cut" rfl rfl).strings
  have hrules : a.ruleHashes = b.ruleHashes := (h.field "rule_hashes" rfl rfl).strings
  cases a
  cases b
  rw [Act.mk.injEq]
  exact ⟨hhash, hactType, hidentity, hparents, hdecision, hcommand, hauthChain, hregistry,
    hrules, hcontext, hpayload, hclaimed⟩

/-! ### What a call asks for -/

/-- **Two calls ask for the same content**: the same type, chain and claimed time, Commands
with the same signed content, Contexts with the same JSON value, the same cuts, Identity
and Rules. -/
structure Submission.SameContent (c c' : Submission) : Prop where
  actType : c.actType = c'.actType
  authChain : c.authChain = c'.authChain
  claimedWhen : c.claimedWhen = c'.claimedWhen
  commandType : c.command.commandType = c'.command.commandType
  performer : c.command.identityHash = c'.command.identityHash
  nonce : c.command.nonce = c'.command.nonce
  parents : c.command.parents = c'.command.parents
  payloadHash : c.command.payloadHash = c'.command.payloadHash
  context : SameJson c.context.canonicalValue c'.context.canonicalValue
  decisionCut : c.decision.cut = c'.decision.cut
  registryCut : c.decision.registryCut = c'.decision.registryCut
  identity : c.identity.hash = c'.identity.hash
  ruleHashes : c.decision.ruleHashes = c'.decision.ruleHashes

/-- **The place a call asks for** is the hash of the Act it asks for. -/
theorem Submission.occurrence_ok {P : Primitives} {c : Submission} {k : Hash}
    (h : c.occurrence P = .ok k) : ∃ commandHash contextHash,
      c.command.hash P = .ok commandHash ∧ c.context.hash P = .ok contextHash ∧
        objectHash P "act" (CommitGate.actOf c k commandHash contextHash).value = .ok k := by
  rw [Submission.occurrence, CommitGate.canonicalValue] at h
  rcases hcommand : c.command.hash P with e | commandHash
  · rw [hcommand] at h
    cases h
  · rcases hcontext : c.context.hash P with e | contextHash
    · rw [hcommand, hcontext] at h
      cases h
    · rw [hcommand, hcontext] at h
      exact ⟨commandHash, contextHash, rfl, rfl, h⟩

/-- **What the gate hashes is the Act's own form.** -/
theorem Admission.value {P : Primitives}
    {known : MemoryLedger → String → String → Cut → Bool} {s : MemoryLedger} {c : Submission}
    {a : Act} (h : Admission P known s c a) :
    a.value = CommitGate.actValue c a.commandHash a.contextHash := by
  conv_lhs => rw [h.act_eq]
  rfl

namespace Gate

open Runs

variable {P : Primitives} {known : MemoryLedger → String → String → Cut → Bool}
  {s : MemoryLedger} {calls pre : List Submission} {c : Submission} {a : Act} {k : Hash}

/-- Every Act stands under its own hash. -/
def Keyed (s : MemoryLedger) : Prop := ∀ k a, s.acts.get? k = some a → a.hash = k

theorem Keyed.exec (h : Keyed s) (calls : List Submission) : Keyed (Gate.exec P known s calls) := by
  intro k a ha
  rcases get?_exec_cases ha with hinit | ⟨pre, c, -, rfl⟩
  · exact h k a hinit
  · rfl

/-- **What a call returns stands at the place it asks for.** -/
theorem Keyed.occurrence (h : Keyed s)
    (hret : ((CommitGate.commit P c).run (MemoryLedger.handle known) s).1 = .ok a) :
    c.occurrence P = .ok a.hash := by
  have hrun : (CommitGate.commit P c).run (MemoryLedger.handle known) s
      = (.ok a, step P known s c) := Prod.ext hret rfl
  rcases CommitGate.commit_cases hrun with
    ⟨_, herr, -⟩ | ⟨b, k, hb, hocc, hget, -⟩ | ⟨b, hb, hadm, -⟩
  · cases herr
  · cases hb
    rw [h k a hget]
    exact hocc
  · cases hb
    rw [Submission.occurrence, CommitGate.canonicalValue, hadm.commandHash, hadm.contextHash]
    exact hadm.hash

end Gate

/-! ### Two occurrences of one stage -/

namespace Sample

mutual

/-- Whether two values are the same, their orders included. -/
def same : CanonValue → CanonValue → Bool
  | .null, .null => true
  | .bool b, .bool b' => b = b'
  | .int n, .int n' => n = n'
  | .float bits, .float bits' => bits = bits'
  | .str s, .str s' => s = s'
  | .list items, .list items' => sameItems items items'
  | .dict items, .dict items' => sameFields items items'
  | _, _ => false

/-- The same for the items of a sequence. -/
def sameItems : List CanonValue → List CanonValue → Bool
  | [], [] => true
  | v :: items, w :: items' => same v w && sameItems items items'
  | _, _ => false

/-- The same for the items of a mapping. -/
def sameFields : List (String × CanonValue) → List (String × CanonValue) → Bool
  | [], [] => true
  | (key, v) :: items, (key', w) :: items' => key = key' && same v w && sameFields items items'
  | _, _ => false

end

mutual

theorem same_self : ∀ v : CanonValue, same v v = true
  | .list items => by rw [same, sameItems_self items]
  | .dict items => by rw [same, sameFields_self items]
  | .null => rfl
  | .bool b => by simp [same]
  | .int n => by simp [same]
  | .float bits => by simp [same]
  | .str s => by simp [same]

theorem sameItems_self : ∀ l : List CanonValue, sameItems l l = true
  | [] => rfl
  | v :: l => by rw [sameItems, same_self v, sameItems_self l]; rfl

theorem sameFields_self : ∀ l : List (String × CanonValue), sameFields l l = true
  | [] => rfl
  | (key, v) :: l => by
    rw [sameFields, same_self v, sameFields_self l]
    simp

end

mutual

theorem eq_of_same : ∀ {v w : CanonValue}, same v w = true → v = w
  | .list items, w, h => by
    cases w <;> simp only [same, Bool.false_eq_true] at h
    rw [eq_of_sameItems h]
  | .dict items, w, h => by
    cases w <;> simp only [same, Bool.false_eq_true] at h
    rw [eq_of_sameFields h]
  | .null, w, h => by cases w <;> simp_all [same]
  | .bool b, w, h => by cases w <;> simp_all [same]
  | .int n, w, h => by cases w <;> simp_all [same]
  | .float bits, w, h => by cases w <;> simp_all [same]
  | .str s, w, h => by cases w <;> simp_all [same]

theorem eq_of_sameItems : ∀ {l l' : List CanonValue}, sameItems l l' = true → l = l'
  | [], l', h => by cases l' <;> simp_all [sameItems]
  | v :: l, l', h => by
    cases l' <;> simp only [sameItems, Bool.false_eq_true, Bool.and_eq_true] at h
    rw [eq_of_same h.1, eq_of_sameItems h.2]

theorem eq_of_sameFields : ∀ {l l' : List (String × CanonValue)}, sameFields l l' = true → l = l'
  | [], l', h => by cases l' <;> simp_all [sameFields]
  | (key, v) :: l, l', h => by
    rcases l' with _ | ⟨⟨key', w⟩, l'⟩
    · simp only [sameFields, Bool.false_eq_true] at h
    · simp only [sameFields, Bool.and_eq_true, decide_eq_true_eq] at h
      rw [h.1.1, eq_of_same h.1.2, eq_of_sameFields h.2]

end

/-- A digest without collisions: the bytes themselves, one character each. -/
theorem decode_injective : Function.Injective decode := by
  have hchar : Function.Injective fun b : UInt8 => Char.ofNat b.toNat := by
    intro b b' h
    have hvalid : ∀ b : UInt8, (Char.ofNat b.toNat).toNat = b.toNat := by
      intro b
      have hlt := b.toNat_lt
      rw [Char.ofNat, dif_pos (Or.inl (by omega))]
      rfl
    have hnat := congrArg Char.toNat h
    simp only [hvalid] at hnat
    exact UInt8.toNat_inj.mp hnat
  intro l l' h
  exact List.map_injective_iff.mpr hchar (String.ofList_injective h)

/-- Libraries without collisions, for some values. -/
def spellingOf (written : List CanonValue) : Primitives where
  sha256 := decode
  dumps value := if written.any (same value) then .ok (text value) else .error "not written here"
  loads := read
  verify := (primitives "").verify

theorem injectiveOnJson_spellingOf {written : List CanonValue}
    (htext : (written.map text).Nodup) : (spellingOf written).InjectiveOnJson := by
  have hwritten : ∀ v canon, (spellingOf written).dumps v = .ok canon →
      v ∈ written ∧ canon = text v := by
    intro v canon h
    change (if written.any (same v) then .ok (text v) else .error _) = Except.ok canon at h
    split at h
    · rename_i hany
      cases h
      obtain ⟨w, hw, hsame⟩ := List.any_eq_true.mp hany
      exact ⟨eq_of_same hsame ▸ hw, rfl⟩
    · cases h
  intro v w canon hv hw
  obtain ⟨hvmem, hvtext⟩ := hwritten v canon hv
  obtain ⟨hwmem, hwtext⟩ := hwritten w canon hw
  rw [List.inj_on_of_nodup_map htext hvmem hwmem (hvtext.symm.trans hwtext)]
  exact SameJson.refl w

/-- The hash a value has by that digest. -/
def spelled (kind : String) (value : CanonValue) : Hash :=
  decode (encode ("powerfarm:" ++ kind ++ ":" ++ "v1") ++ text value)

/-- A value that is written down has its hash. -/
theorem objectHash_spellingOf (kind : String) {written : List CanonValue} {v : CanonValue}
    (hkind : ¬(kind = "" ∨ ':' ∈ kind.toList)) (hv : v ∈ written) :
    objectHash (spellingOf written) kind v = .ok (spelled kind v) := by
  have hdumps : (spellingOf written).dumps v = .ok (text v) :=
    if_pos (List.any_eq_true.mpr ⟨v, hv, same_self v⟩)
  have hversion : ¬(kind = "" ∨ ':' ∈ kind.toList ∨ "v1" = "") := by
    rw [← or_assoc, not_or]
    exact ⟨hkind, by decide⟩
  rw [objectHash, objectHashAt, if_neg hversion, canonicalize, hdumps]
  rfl

/-- The hashed form of the Act a call asks for, by that digest. -/
def spelledAct (c : Submission) : CanonValue :=
  CommitGate.actValue c (spelled "command" c.command.signingValue)
    (spelled "context" c.context.canonicalValue)

/-- The review of `create` is requested at a claimed time. -/
def requestAtNoon : Submission := { requestReview with claimedWhen := some "noon" }

/-- The values the two calls write down. -/
def written : List CanonValue :=
  [create.signingValue, context.canonicalValue, spelledAct requestReview, spelledAct requestAtNoon]

end Sample

namespace Gate

theorem keyed_store : Keyed Sample.store := by
  intro k a ha
  obtain ⟨rfl, rfl⟩ := Sample.get?_ledger ha
  rfl

end Gate

end PowerfarmKernel
