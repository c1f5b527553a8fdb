import Mathlib.Algebra.Field.Rat
import PowerfarmKernel.Kernel.Types

/-!
# Values up to their JSON meaning

A canonicalizer is not injective on the values it is handed: a mapping is written in key
order whatever its own order, and `1` and `1.0` have one text. It is injective on the JSON
values these stand for. `PowerfarmKernel.SameJson` says when two values stand for the same
one, `PowerfarmKernel.Primitives.InjectiveOnJson` states the assumption, and
`PowerfarmKernel.sameJson_of_objectHash` draws from it, and from a digest without
collisions, what every content address rests on: objects of one kind with one hash have
one content.
-/

namespace PowerfarmKernel

/-! ### The number a value stands for -/

/-- The number a double is; infinities and not-a-numbers are none. -/
def doubleValue (bits : UInt64) : Option ℚ :=
  let sign : ℚ := if bits.toNat / 2 ^ 63 = 0 then 1 else -1
  let exponent : ℕ := bits.toNat / 2 ^ 52 % 2 ^ 11
  let fraction : ℕ := bits.toNat % 2 ^ 52
  if exponent = 2 ^ 11 - 1 then none
  else if exponent = 0 then some (sign * fraction / 2 ^ 1074)
  else some (sign * (2 ^ 52 + fraction) * 2 ^ exponent / 2 ^ 1075)

/-- The number a value stands for, if it is one. -/
def CanonValue.number : CanonValue → Option ℚ
  | .int n => some n
  | .float bits => doubleValue bits
  | _ => none

/-! ### One JSON value -/

/-- **Two values stand for the same JSON value**: numbers by the number, sequences item by
item, mappings key by key. -/
inductive SameJson : CanonValue → CanonValue → Prop
  | refl (v : CanonValue) : SameJson v v
  | number {v w : CanonValue} {q : ℚ} : v.number = some q → w.number = some q → SameJson v w
  | list {items items' : List CanonValue} : List.Forall₂ SameJson items items' →
      SameJson (.list items) (.list items')
  | dict {items items' : List (String × CanonValue)} :
      (∀ key, (field items key).isSome ↔ (field items' key).isSome) →
      (∀ key v w, field items key = some v → field items' key = some w → SameJson v w) →
      SameJson (.dict items) (.dict items')

namespace SameJson

variable {v w : CanonValue} {s s' : String} {l l' : List String}
  {items items' : List (String × CanonValue)}

/-- A string stands for itself alone. -/
theorem str (h : SameJson (.str s) (.str s')) : s = s' := by
  cases h with
  | refl => rfl
  | number hv => cases hv

theorem not_null_str : ¬SameJson .null (.str s) := by
  intro h
  cases h with
  | number hv => cases hv

theorem not_str_null : ¬SameJson (.str s) .null := by
  intro h
  cases h with
  | number hv => cases hv

/-- A sequence of strings stands for itself alone, its order included. -/
theorem strings (h : SameJson (PowerfarmKernel.strings l) (PowerfarmKernel.strings l')) :
    l = l' := by
  have hitems : ∀ l l' : List String,
      List.Forall₂ SameJson (l.map .str) (l'.map .str) → l = l' := by
    intro l l' hl
    rw [List.forall₂_map_left_iff, List.forall₂_map_right_iff] at hl
    exact List.forall₂_eq_eq_eq ▸ hl.imp fun _ _ => str
  generalize hv : PowerfarmKernel.strings l = v at h
  generalize hw : PowerfarmKernel.strings l' = w at h
  cases h with
  | refl =>
    have hmap := CanonValue.list.inj (hv.trans hw.symm)
    exact List.map_injective_iff.mpr (fun _ _ heq => CanonValue.str.inj heq) hmap
  | number hn =>
    rw [← hv] at hn
    cases hn
  | list hl =>
    obtain rfl := CanonValue.list.inj hv
    obtain rfl := CanonValue.list.inj hw
    exact hitems l l' hl
  | dict => cases hv

/-- What stands for a string is that string. -/
theorem eq_str (h : SameJson v (.str s)) : v = .str s := by
  cases h with
  | refl => rfl
  | number hv hw => cases hw

/-- What stands for a sequence of strings is that sequence. -/
theorem eq_strings (h : SameJson v (PowerfarmKernel.strings l)) :
    v = PowerfarmKernel.strings l := by
  generalize hw : PowerfarmKernel.strings l = w at h
  cases h with
  | refl => rfl
  | number hv hq =>
    rw [← hw] at hq
    cases hq
  | @list items items' hitems =>
    rw [PowerfarmKernel.strings, CanonValue.list.injEq] at hw
    rw [← hw, List.forall₂_map_right_iff] at hitems
    have hsame : items = l.map .str := by
      rw [← List.forall₂_eq_eq_eq, List.forall₂_map_right_iff]
      exact hitems.imp fun _ _ => eq_str
    rw [hsame, hw]
  | dict => cases hw

/-- **Mappings that are the same have the same keys.** -/
theorem isSome_field (key : String) (h : SameJson (.dict items) (.dict items')) :
    (PowerfarmKernel.field items key).isSome ↔ (PowerfarmKernel.field items' key).isSome := by
  cases h with
  | refl => exact Iff.rfl
  | number hn => cases hn
  | dict hkeys => exact hkeys key

/-- **Mappings that are the same have the same value under a key.** -/
theorem field (key : String) (h : SameJson (.dict items) (.dict items'))
    (hv : PowerfarmKernel.field items key = some v)
    (hw : PowerfarmKernel.field items' key = some w) : SameJson v w := by
  cases h with
  | refl =>
    obtain rfl := Option.some.inj (hv.symm.trans hw)
    exact refl v
  | number hn => cases hn
  | dict hkeys hvalues => exact hvalues key v w hv hw

end SameJson

/-! ### Content addresses -/

/-- **The canonicalizer is injective on JSON values.** -/
def Primitives.InjectiveOnJson (P : Primitives) : Prop :=
  ∀ v w canon, P.dumps v = .ok canon → P.dumps w = .ok canon → SameJson v w

variable {P : Primitives} {kind : String} {v w : CanonValue} {canon : Bytes} {h : Hash}

theorem canonicalize_ok (hcanon : canonicalize P v = .ok canon) : P.dumps v = .ok canon := by
  rw [canonicalize] at hcanon
  split at hcanon
  · rename_i canon' hdumps
    cases hcanon
    exact hdumps
  · cases hcanon

/-- A hash is the digest of the domain tag and the canonical form. -/
theorem objectHash_ok (hhash : objectHash P kind v = .ok h) : ∃ canon,
    canonicalize P v = .ok canon ∧
      h = P.sha256 (encode ("powerfarm:" ++ kind ++ ":" ++ "v1") ++ canon) := by
  rw [objectHash, objectHashAt] at hhash
  split at hhash
  · cases hhash
  · split at hhash
    · rename_i canon hcanon
      cases hhash
      exact ⟨canon, hcanon, rfl⟩
    · cases hhash

/-- **Objects of one kind with one hash have one content.** -/
theorem sameJson_of_objectHash (hdumps : P.InjectiveOnJson) (hsha : Function.Injective P.sha256)
    (hv : objectHash P kind v = .ok h) (hw : objectHash P kind w = .ok h) : SameJson v w := by
  obtain ⟨canon, hcanon, hdigest⟩ := objectHash_ok hv
  obtain ⟨canon', hcanon', hdigest'⟩ := objectHash_ok hw
  have hbytes := hsha (hdigest.symm.trans hdigest')
  have hsame : canon = canon' := List.append_cancel_left hbytes
  rw [← hsame] at hcanon'
  exact hdumps v w canon (canonicalize_ok hcanon) (canonicalize_ok hcanon')

end PowerfarmKernel
