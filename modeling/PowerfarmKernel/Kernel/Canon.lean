import Mathlib.Data.Finset.Basic
import Mathlib.Data.List.Sort
import Mathlib.Data.String.Basic
import PowerfarmKernel.Lib.Prog

/-!
# Canonical values and object identities

Every governed object – a Command, a Context, an Act, a payload – is identified by
the SHA-256 digest of a domain tag followed by the object's RFC 8785 form
(`PowerfarmKernel.objectHash`, `kernel/canon.py`).

The libraries the kernel calls are not part of the repository, and they enter as the
fields of `PowerfarmKernel.Primitives`: the digest, the canonicalizer, the JSON reader
and the signature check. Every result below holds for any such functions; where a
result needs something of them – that what was written reads back – it says so as a
hypothesis.
-/

namespace PowerfarmKernel

/-! ### Values -/

/-- A hash, or any other identifier: the code keeps all of them as strings. -/
abbrev Hash := String

/-- A byte string. -/
abbrev Bytes := List UInt8

/-- A set of Act hashes. A history cut is one that is closed under ancestry. -/
abbrev Cut := Finset Hash

/-- The UTF-8 bytes of a string. -/
def encode (s : String) : Bytes := s.toByteArray.data.toList

/-- **The values the canonicalizer accepts** (`CanonValue`): JSON, with a float kept
as the bits of the double it is. -/
inductive CanonValue where
  /-- `None`. -/
  | null : CanonValue
  /-- A truth value. -/
  | bool (b : Bool) : CanonValue
  /-- An integer. -/
  | int (n : ℤ) : CanonValue
  /-- A double, by its bits. -/
  | float (bits : UInt64) : CanonValue
  /-- A string. -/
  | str (s : String) : CanonValue
  /-- A sequence. -/
  | list (items : List CanonValue) : CanonValue
  /-- A mapping, in its own order. -/
  | dict (items : List (String × CanonValue)) : CanonValue

/-- The value under a key of a mapping. -/
def field (items : List (String × CanonValue)) (key : String) : Option CanonValue :=
  items.lookup key

/-- The value under a key of a mapping, when it is a string. -/
def stringField (items : List (String × CanonValue)) (key : String) : Option String :=
  match field items key with
  | some (.str s) => some s
  | _ => none

/-- A sequence of strings, as a value. -/
def strings (l : List String) : CanonValue := .list (l.map .str)

/-- `sorted` of a set of strings. -/
def sorted (cut : Cut) : List Hash :=
  Quot.liftOn cut.val (fun l => l.insertionSort (· ≤ ·)) fun l l' h => by
    have hperm : (l.insertionSort (· ≤ ·)).Perm (l'.insertionSort (· ≤ ·)) :=
      (List.perm_insertionSort _ l).trans (h.trans (List.perm_insertionSort _ l').symm)
    exact hperm.eq_of_pairwise (fun a b _ _ => le_antisymm)
      (List.pairwise_insertionSort _ l) (List.pairwise_insertionSort _ l')

theorem mem_sorted {cut : Cut} {h : Hash} : h ∈ sorted cut ↔ h ∈ cut := by
  obtain ⟨m, hm⟩ := cut
  induction m using Quot.inductionOn with
  | h l => exact List.mem_insertionSort _

/-! ### Exceptions -/

/-- The exception classes the modelled code raises or catches. -/
inductive ErrorClass where
  | valueError
  | canonicalizationError
  | keyError
  | typeError
  | ruleError
  | commitError
  | validationError
  | authorizationError
  | notFoundError
  | conflictError
  | serviceError
  | databaseError
deriving DecidableEq, Repr

/-- An exception, with its text. -/
structure Raised where
  /-- Its class. -/
  cls : ErrorClass
  /-- Its text. -/
  message : String
deriving DecidableEq, Repr

/-! ### The libraries the kernel calls -/

/-- **The functions the kernel imports.** -/
structure Primitives where
  /-- `hashlib.sha256(data).hexdigest()`. -/
  sha256 : Bytes → Hash
  /-- `rfc8785.dumps`, or the text of the error it raises. -/
  dumps : CanonValue → Except String Bytes
  /-- `json.loads`, or nothing where it raises. -/
  loads : Bytes → Option CanonValue
  /-- `Ed25519PublicKey.from_public_bytes(key).verify(signature, message)`: whether it
  passes without raising. -/
  verify : Bytes → Bytes → Bytes → Bool

variable (P : Primitives)

/-- Encode a value as RFC 8785 canonical JSON. -/
def canonicalize (value : CanonValue) : Except Raised Bytes :=
  match P.dumps value with
  | .ok canon => .ok canon
  | .error text => .error ⟨.canonicalizationError, text⟩

/-- SHA-256 over the domain tag and the canonical form, the version explicit. -/
def objectHashAt (kind : String) (value : CanonValue) (version : String) : Except Raised Hash :=
  if kind = "" ∨ ':' ∈ kind.toList ∨ version = "" then
    .error ⟨.valueError, "kind and version must form an unambiguous domain tag"⟩
  else
    match canonicalize P value with
    | .ok canon =>
        .ok (P.sha256 (encode ("powerfarm:" ++ kind ++ ":" ++ version) ++ canon))
    | .error e => .error e

/-- **The identity of an object** of a given kind, at the version in force. -/
def objectHash (kind : String) (value : CanonValue) : Except Raised Hash :=
  objectHashAt P kind value "v1"

variable {P} {kind : String} {value : CanonValue} {e : Raised}

/-- A value the canonicalizer refuses is refused under one class. -/
theorem canonicalize_error (h : canonicalize P value = .error e) :
    e.cls = .canonicalizationError := by
  rw [canonicalize] at h
  split at h
  · cases h
  · cases h
    rfl

/-- What raises when an object has no identity: its kind, or its canonical form. -/
theorem objectHash_error (h : objectHash P kind value = .error e) :
    e.cls = .valueError ∨ e.cls = .canonicalizationError := by
  rw [objectHash, objectHashAt] at h
  split at h
  · cases h
    exact Or.inl rfl
  · split at h
    · cases h
    · rename_i herror
      cases h
      exact Or.inr (canonicalize_error herror)

end PowerfarmKernel
