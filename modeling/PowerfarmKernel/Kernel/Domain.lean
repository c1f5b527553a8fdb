import PowerfarmKernel.Kernel.Sample

/-!
# Domain separation

What is hashed of an object is a tag, `powerfarm:kind:version`, followed by the canonical
form of its value, and nothing stands between the two. A kind has no colon, so it can be
read back (`PowerfarmKernel.Tagged.kind_eq`). Where the version ends and the value begins
cannot: the last letters of one version may be the first of another value.
`PowerfarmKernel.Tagged.unambiguous_iff` says which objects have the bytes of another.
-/

namespace PowerfarmKernel

/-! ### Encoded strings -/

theorem encode_append (s t : String) : encode (s ++ t) = encode s ++ encode t := by
  rw [encode, encode, encode, String.toByteArray_append, ByteArray.data_append, Array.toList_append]

/-- **A string is read back off the front of another's bytes.** -/
theorem exists_of_encode_append {s t : String} {bytes : Bytes} (h : encode s ++ bytes = encode t) :
    ∃ w, t = s ++ w ∧ bytes = encode w := by
  have hbytes : s.toList.utf8Encode ++ (⟨bytes.toArray⟩ : ByteArray) = t.toList.utf8Encode := by
    rw [String.utf8Encode_toList, String.utf8Encode_toList]
    refine ByteArray.ext (Array.toList_inj.mp ?_)
    rw [ByteArray.data_append, Array.toList_append]
    exact h
  obtain ⟨l, hl⟩ := List.isPrefix_of_utf8Encode_append_eq_utf8Encode _ hbytes
  have ht : t = s ++ String.ofList l := by
    rw [← String.toList_inj, String.toList_append, String.toList_ofList, hl]
  refine ⟨String.ofList l, ht, ?_⟩
  rw [ht, encode_append] at h
  exact List.append_cancel_left h

/-- What stands before the first of some letter is read back. -/
theorem eq_of_append_cons {α : Type} {x : α} {l l' r r' : List α} (hl : x ∉ l) (hl' : x ∉ l')
    (h : l ++ x :: r = l' ++ x :: r') : l = l' ∧ r = r' := by
  rcases List.append_eq_append_iff.mp h with ⟨m, rfl, hm⟩ | ⟨m, rfl, hm⟩
  · cases m with
    | nil => simpa using hm
    | cons y m =>
      obtain ⟨rfl, -⟩ := List.cons.inj hm
      exact absurd (List.mem_append_right l List.mem_cons_self) hl'
  · cases m with
    | nil => simpa [eq_comm] using hm
    | cons y m =>
      obtain ⟨rfl, -⟩ := List.cons.inj hm
      exact absurd (List.mem_append_right l' List.mem_cons_self) hl

/-! ### Tagged objects -/

/-- **An object that is hashed**: its tag passes the guard of `object_hash`, and its value
has a canonical form. -/
structure Tagged (P : Primitives) where
  kind : String
  version : String
  value : CanonValue
  canon : Bytes
  kind_ne : kind ≠ ""
  colon_notMem : ':' ∉ kind.toList
  version_ne : version ≠ ""
  canonical : canonicalize P value = .ok canon

namespace Tagged

variable {P : Primitives} (a b : Tagged P)

/-- The bytes that are hashed. -/
def bytes : Bytes := encode ("powerfarm:" ++ a.kind ++ ":" ++ a.version) ++ a.canon

/-- What `object_hash` returns is the digest of these bytes. -/
theorem objectHashAt_eq : objectHashAt P a.kind a.value a.version = .ok (P.sha256 a.bytes) := by
  have hguard : ¬(a.kind = "" ∨ ':' ∈ a.kind.toList ∨ a.version = "") := by
    rintro (hkind | hcolon | hversion)
    · exact a.kind_ne hkind
    · exact a.colon_notMem hcolon
    · exact a.version_ne hversion
  rw [objectHashAt, if_neg hguard, a.canonical]
  rfl

/-- Whatever `object_hash` returns a hash for is such an object. -/
theorem exists_of_objectHashAt {kind version : String} {value : CanonValue} {h : Hash}
    (hhash : objectHashAt P kind value version = .ok h) :
    ∃ a : Tagged P, a.kind = kind ∧ a.version = version ∧ a.value = value := by
  rw [objectHashAt] at hhash
  split at hhash
  · cases hhash
  · rename_i hguard
    rw [not_or, not_or] at hguard
    rcases hcanon : canonicalize P value with e | canon
    · rw [hcanon] at hhash
      cases hhash
    · exact ⟨⟨kind, version, value, canon, hguard.1, hguard.2.1, hguard.2.2, hcanon⟩,
        rfl, rfl, rfl⟩

variable {a b}

/-- **The longer of two tags with common bytes continues the shorter one**, and its kind is
the same. -/
theorem version_eq_of_append {r : Bytes}
    (h : encode ("powerfarm:" ++ a.kind ++ ":" ++ a.version) ++ r
      = encode ("powerfarm:" ++ b.kind ++ ":" ++ b.version)) :
    a.kind = b.kind ∧ ∃ w, b.version = a.version ++ w ∧ r = encode w := by
  obtain ⟨w, htag, hr⟩ := exists_of_encode_append h
  have hlist : a.kind.toList ++ ':' :: (a.version ++ w).toList
      = b.kind.toList ++ ':' :: b.version.toList := by
    have hchars := congrArg String.toList htag
    simp only [String.toList_append, List.append_assoc] at hchars
    simpa [String.toList_append] using (List.append_cancel_left hchars).symm
  obtain ⟨hkind, hversion⟩ := eq_of_append_cons a.colon_notMem b.colon_notMem hlist
  exact ⟨String.toList_inj.mp hkind, w, String.toList_inj.mp hversion.symm, hr⟩

/-- **One version continues another into its value**: the letters by which `b`'s version is
longer begin the canonical form of `a`, and `b`'s canonical form is the rest. -/
def Continues (a b : Tagged P) : Prop :=
  a.kind = b.kind ∧ ∃ w, w ≠ "" ∧ b.version = a.version ++ w ∧ a.canon = encode w ++ b.canon

theorem Continues.bytes_eq (h : Continues a b) : a.bytes = b.bytes := by
  obtain ⟨hkind, w, -, hversion, hcanon⟩ := h
  rw [bytes, bytes, hkind, hversion, hcanon, ← String.append_assoc, encode_append _ w,
    List.append_assoc]

theorem Continues.version_ne (h : Continues a b) : a.version ≠ b.version := by
  obtain ⟨-, w, hw, hversion, -⟩ := h
  intro hsame
  rw [hsame] at hversion
  have hlist := congrArg String.toList hversion
  rw [String.toList_append, List.self_eq_append_right, String.toList_eq_nil_iff] at hlist
  exact hw hlist

/-- **Two objects with the same bytes** are the same in kind, version and canonical form, or
one version continues the other. -/
theorem cases_of_bytes_eq (h : a.bytes = b.bytes) :
    (a.kind = b.kind ∧ a.version = b.version ∧ a.canon = b.canon) ∨ Continues a b ∨
      Continues b a := by
  have hcases : ∀ {a b : Tagged P} {r : Bytes},
      encode ("powerfarm:" ++ b.kind ++ ":" ++ b.version)
        = encode ("powerfarm:" ++ a.kind ++ ":" ++ a.version) ++ r → a.canon = r ++ b.canon →
      (a.kind = b.kind ∧ a.version = b.version ∧ a.canon = b.canon) ∨ Continues a b := by
    intro a b r htag hcanon
    obtain ⟨hkind, w, hversion, rfl⟩ := version_eq_of_append htag.symm
    rcases eq_or_ne w "" with rfl | hw
    · refine Or.inl ⟨hkind, ?_, ?_⟩
      · rw [hversion, String.append_empty]
      · exact hcanon
    · exact Or.inr ⟨hkind, w, hw, hversion, hcanon⟩
  rcases List.append_eq_append_iff.mp h with ⟨r, htag, hcanon⟩ | ⟨r, htag, hcanon⟩
  · rcases hcases htag hcanon with hsame | hcontinues
    · exact Or.inl hsame
    · exact Or.inr (Or.inl hcontinues)
  · rcases hcases htag hcanon with ⟨hkind, hversion, hcanon⟩ | hcontinues
    · exact Or.inl ⟨hkind.symm, hversion.symm, hcanon.symm⟩
    · exact Or.inr (Or.inr hcontinues)

/-- **The kind is always read back.** -/
theorem kind_eq (h : a.bytes = b.bytes) : a.kind = b.kind := by
  rcases cases_of_bytes_eq h with ⟨hkind, -⟩ | ⟨hkind, -⟩ | ⟨hkind, -⟩
  · exact hkind
  · exact hkind
  · exact hkind.symm

/-- **The bytes of two objects tell them apart exactly when neither version continues the
other into its value**; in particular they do at one version. -/
theorem unambiguous_iff (P : Primitives) (a b : Tagged P) :
    ((a.bytes = b.bytes → a.kind = b.kind ∧ a.version = b.version ∧ a.canon = b.canon) ↔
      ¬Continues a b ∧ ¬Continues b a) ∧
    (a.version = b.version → ¬Continues a b ∧ ¬Continues b a) := by
  refine ⟨⟨fun h => ⟨fun hab => ?_, fun hba => ?_⟩, fun h hbytes => ?_⟩,
    fun hsame => ⟨fun hab => hab.version_ne hsame, fun hba => hba.version_ne hsame.symm⟩⟩
  · exact hab.version_ne (h hab.bytes_eq).2.1
  · exact hba.version_ne (h hba.bytes_eq.symm).2.1.symm
  · rcases cases_of_bytes_eq hbytes with hsame | hab | hba
    · exact hsame
    · exact absurd hab h.1
    · exact absurd hba h.2

end Tagged

namespace Sample

/-- A payload that is the number 12, at version 1. -/
def twelve : Tagged (primitives "") :=
  ⟨"payload", "v1", .int 12, encode "12", by decide, by decide, by decide, rfl⟩

/-- A payload that is the number 2, at version 11. -/
def two : Tagged (primitives "") :=
  ⟨"payload", "v11", .int 2, encode "2", by decide, by decide, by decide, rfl⟩

/-- **Two payloads have the same bytes.** -/
theorem twelve_ambiguous : ¬(twelve.bytes = two.bytes → twelve.kind = two.kind ∧
    twelve.version = two.version ∧ twelve.canon = two.canon) := by
  decide +kernel

end Sample

end PowerfarmKernel
