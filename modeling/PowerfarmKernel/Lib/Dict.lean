import Mathlib.Data.List.Induction
import Mathlib.Data.List.Nodup
import Mathlib.Data.Finset.Dedup
import Mathlib.Order.Basic

/-!
# Insertion-ordered dictionaries

A `Dict` is a finite map that remembers the order in which its keys were first
bound: writing a bound key replaces its value in place, writing a fresh key
appends the binding at the end. Each key occurs once, and the structure carries
the proof, so a list with a repeated key is not a dictionary.

Everything later modules read off a dictionary goes through `Dict.get?`, and
`Dict.get?_eq_some_iff` says once what a lookup finds. The order of the bindings
is only ever used through `Dict.keys` and `Dict.values`.

Dictionaries that only grow are compared by `d ≤ d'`: every binding of `d` is a
binding of `d'`. This is the relation an append-only store preserves.
-/

/-- **A finite map that keeps its insertion order**, with no key bound twice. -/
structure Dict (κ ν : Type) where
  /-- The bindings, oldest first. -/
  entries : List (κ × ν)
  /-- No key is bound twice. -/
  nodup : (entries.map Prod.fst).Nodup
deriving DecidableEq

namespace Dict

variable {κ ν : Type} {d d' : Dict κ ν} {k j : κ} {v w : ν}

/-- The dictionary with no binding. -/
def empty : Dict κ ν := ⟨[], List.nodup_nil⟩

instance : Inhabited (Dict κ ν) := ⟨empty⟩

/-- The keys, in insertion order. -/
def keys (d : Dict κ ν) : List κ := d.entries.map Prod.fst

/-- The values, in insertion order of their keys. -/
def values (d : Dict κ ν) : List ν := d.entries.map Prod.snd

@[simp] theorem entries_empty : (empty : Dict κ ν).entries = [] := rfl

@[simp] theorem keys_empty : (empty : Dict κ ν).keys = [] := rfl

/-- **A key determines its binding**: two bindings with one key are the same. -/
theorem eq_of_mem_entries (h : (k, v) ∈ d.entries) (h' : (k, w) ∈ d.entries) : v = w := by
  have := List.inj_on_of_nodup_map d.nodup h h' rfl
  exact (Prod.mk.inj this).2

/-- Two dictionaries with the same bindings in the same order are the same. -/
theorem eq_of_entries (h : d.entries = d'.entries) : d = d' := by
  cases d
  cases d'
  cases h
  rfl

variable [DecidableEq κ]

/-! ### Lookup -/

/-- The value bound to a key, if there is one. -/
def get? (d : Dict κ ν) (k : κ) : Option ν :=
  (d.entries.find? fun e => e.1 = k).map Prod.snd

/-- **What a lookup finds** is a binding of the dictionary. -/
theorem get?_eq_some_iff : d.get? k = some v ↔ (k, v) ∈ d.entries := by
  rw [get?, Option.map_eq_some_iff]
  constructor
  · rintro ⟨⟨k', v'⟩, hfind, rfl⟩
    have hk : k' = k := by simpa using List.find?_some hfind
    exact hk ▸ List.mem_of_find?_eq_some hfind
  · intro hmem
    have hsome : (d.entries.find? fun e => e.1 = k).isSome :=
      List.find?_isSome.mpr ⟨(k, v), hmem, by simp⟩
    obtain ⟨⟨k', v'⟩, hfind⟩ := Option.isSome_iff_exists.mp hsome
    have hk : k' = k := by simpa using List.find?_some hfind
    subst hk
    exact ⟨(k', v'), hfind, eq_of_mem_entries (List.mem_of_find?_eq_some hfind) hmem⟩

theorem mem_keys_iff : k ∈ d.keys ↔ ∃ v, d.get? k = some v := by
  simp only [keys, List.mem_map, get?_eq_some_iff]
  constructor
  · rintro ⟨⟨k', v⟩, hmem, rfl⟩
    exact ⟨v, hmem⟩
  · rintro ⟨v, hmem⟩
    exact ⟨(k, v), hmem, rfl⟩

theorem mem_keys_of_get? (h : d.get? k = some v) : k ∈ d.keys :=
  mem_keys_iff.mpr ⟨v, h⟩

theorem get?_eq_none_iff : d.get? k = none ↔ k ∉ d.keys := by
  rw [mem_keys_iff, Option.eq_none_iff_forall_ne_some, not_exists]

theorem isSome_get?_iff : (d.get? k).isSome ↔ k ∈ d.keys := by
  rw [mem_keys_iff, Option.isSome_iff_exists]

theorem mem_values_iff : v ∈ d.values ↔ ∃ k, d.get? k = some v := by
  simp only [values, List.mem_map, get?_eq_some_iff]
  constructor
  · rintro ⟨⟨k, v'⟩, hmem, rfl⟩
    exact ⟨k, hmem⟩
  · rintro ⟨k, hmem⟩
    exact ⟨(k, v), hmem, rfl⟩

theorem mem_values_of_get? (h : d.get? k = some v) : v ∈ d.values :=
  mem_values_iff.mpr ⟨k, h⟩

@[simp] theorem get?_empty : (empty : Dict κ ν).get? k = none := rfl

/-- The keys as a set. -/
def keySet (d : Dict κ ν) : Finset κ := d.keys.toFinset

@[simp] theorem mem_keySet : k ∈ d.keySet ↔ k ∈ d.keys := List.mem_toFinset

/-! ### Writing and removing a binding -/

/-- Bind a key: in place where it is bound already, at the end otherwise. -/
def set (d : Dict κ ν) (k : κ) (v : ν) : Dict κ ν where
  entries :=
    if k ∈ d.keys then d.entries.map fun e => if e.1 = k then (k, v) else e
    else d.entries ++ [(k, v)]
  nodup := by
    split
    · have hfst : (d.entries.map fun e => if e.1 = k then (k, v) else e).map Prod.fst
          = d.entries.map Prod.fst := by
        rw [List.map_map]
        refine List.map_congr_left fun e _ => ?_
        by_cases he : e.1 = k <;> simp [he]
      rw [hfst]
      exact d.nodup
    · rename_i hk
      rw [List.map_append]
      exact List.nodup_append.mpr ⟨d.nodup, List.nodup_singleton _, by
        rintro a ha b hb rfl
        simp only [List.map_cons, List.map_nil, List.mem_singleton] at hb
        exact hk (hb ▸ ha)⟩

theorem entries_set_of_mem (h : k ∈ d.keys) :
    (d.set k v).entries = d.entries.map fun e => if e.1 = k then (k, v) else e :=
  if_pos h

theorem entries_set_of_notMem (h : k ∉ d.keys) : (d.set k v).entries = d.entries ++ [(k, v)] :=
  if_neg h

theorem values_set_of_notMem (h : k ∉ d.keys) : (d.set k v).values = d.values ++ [v] := by
  rw [values, entries_set_of_notMem h, List.map_append]
  rfl

/-- **Lookup after a write.** -/
theorem get?_set : (d.set k v).get? j = if j = k then some v else d.get? j := by
  by_cases hk : k ∈ d.keys
  · -- A key that is there is written over in its place.
    refine Option.ext fun w => ?_
    have hmem : (j, w) ∈ (d.set k v).entries ↔
        ∃ e ∈ d.entries, (if e.1 = k then (k, v) else e) = (j, w) := by
      rw [entries_set_of_mem hk, List.mem_map]
    rw [get?_eq_some_iff, hmem]
    by_cases hj : j = k
    · subst hj
      rw [if_pos rfl, Option.some.injEq]
      constructor
      · rintro ⟨e, he, heq⟩
        by_cases hek : e.1 = j
        · rw [if_pos hek] at heq
          exact (Prod.mk.inj heq).2
        · rw [if_neg hek] at heq
          exact absurd (congrArg Prod.fst heq) hek
      · rintro rfl
        obtain ⟨w, hw⟩ := mem_keys_iff.mp hk
        exact ⟨(j, w), get?_eq_some_iff.mp hw, if_pos rfl⟩
    · rw [if_neg hj, get?_eq_some_iff]
      constructor
      · rintro ⟨e, he, heq⟩
        by_cases hek : e.1 = k
        · rw [if_pos hek] at heq
          exact absurd (Prod.mk.inj heq).1.symm hj
        · rw [if_neg hek] at heq
          exact heq ▸ he
      · exact fun he => ⟨(j, w), he, if_neg hj⟩
  · -- A new key goes to the end.
    refine Option.ext fun w => ?_
    rw [get?_eq_some_iff, entries_set_of_notMem hk, List.mem_append, List.mem_singleton]
    by_cases hj : j = k
    · subst hj
      rw [if_pos rfl, Option.some.injEq, Prod.mk.injEq]
      constructor
      · rintro (hold | ⟨-, rfl⟩)
        · exact absurd (mem_keys_of_get? (get?_eq_some_iff.mpr hold)) hk
        · rfl
      · rintro rfl
        exact Or.inr ⟨rfl, rfl⟩
    · rw [if_neg hj, get?_eq_some_iff, Prod.mk.injEq]
      exact ⟨fun h => h.resolve_right fun hc => hj hc.1, Or.inl⟩

@[simp] theorem get?_set_self : (d.set k v).get? k = some v := by
  rw [get?_set, if_pos rfl]

/-- What is found after a write is what was written, or what was there. -/
theorem get?_set_cases (h : (d.set k v).get? j = some w) :
    (j = k ∧ w = v) ∨ (j ≠ k ∧ d.get? j = some w) := by
  rw [get?_set] at h
  by_cases hj : j = k
  · rw [if_pos hj, Option.some.injEq] at h
    exact Or.inl ⟨hj, h.symm⟩
  · rw [if_neg hj] at h
    exact Or.inr ⟨hj, h⟩

theorem get?_set_of_ne (h : j ≠ k) : (d.set k v).get? j = d.get? j := by
  rw [get?_set, if_neg h]

/-- **Binding a key to the value it has changes nothing.** -/
theorem set_eq_self (h : d.get? k = some v) : d.set k v = d := by
  refine eq_of_entries ?_
  rw [entries_set_of_mem (mem_keys_of_get? h)]
  refine (List.map_congr_left fun e he => ?_).trans (List.map_id' d.entries)
  split
  · rename_i hkey
    obtain ⟨j, w⟩ := e
    obtain rfl : j = k := hkey
    rw [eq_of_mem_entries he (get?_eq_some_iff.mp h)]
  · rfl

theorem mem_keys_set : j ∈ (d.set k v).keys ↔ j = k ∨ j ∈ d.keys := by
  rw [← isSome_get?_iff, ← isSome_get?_iff, get?_set]
  by_cases hj : j = k <;> simp [hj]

/-- Write a list of bindings, the last one winning. -/
def merge (d : Dict κ ν) (es : List (κ × ν)) : Dict κ ν :=
  es.foldl (fun acc e => acc.set e.1 e.2) d

/-- **Lookup after a merge**: the last of the new bindings of the key, or the old one. -/
theorem get?_merge {es : List (κ × ν)} (h : (d.merge es).get? k = some v) :
    (∃ pre post, es = pre ++ (k, v) :: post ∧ ∀ e ∈ post, e.1 ≠ k) ∨ d.get? k = some v := by
  induction es using List.reverseRecOn with
  | nil => exact Or.inr h
  | append_singleton es e ih =>
    have hlast : d.merge (es ++ [e]) = (d.merge es).set e.1 e.2 := List.foldl_concat ..
    rw [hlast] at h
    rcases get?_set_cases h with ⟨hk, hv⟩ | ⟨hk, h⟩
    · refine Or.inl ⟨es, [], ?_, ?_⟩
      · rw [hk, hv]
      · intro e he
        cases he
    · rcases ih h with ⟨pre, post, rfl, hpost⟩ | hold
      · refine Or.inl ⟨pre, post ++ [e], by rw [List.append_assoc]; rfl, ?_⟩
        intro e' he'
        rcases List.mem_append.mp he' with he' | he'
        · exact hpost e' he'
        · rw [List.mem_singleton.mp he']
          exact Ne.symm hk
      · exact Or.inr hold

/-- **A merge binds a key to the one value the new bindings give it**, whatever it was bound
to before. -/
theorem get?_merge_of_mem {es : List (κ × ν)} (hv : (k, v) ∈ es)
    (h : ∀ w, (k, w) ∈ es → w = v) : (d.merge es).get? k = some v := by
  induction es using List.reverseRecOn with
  | nil => cases hv
  | append_singleton es e ih =>
    have hlast : d.merge (es ++ [e]) = (d.merge es).set e.1 e.2 := List.foldl_concat ..
    rw [hlast, get?_set]
    by_cases hk : k = e.1
    · rw [if_pos hk, h e.2 (List.mem_append_right _ (by rw [hk]; exact List.mem_singleton_self e))]
    · rw [if_neg hk]
      refine ih ?_ fun w hw => h w (List.mem_append_left _ hw)
      rcases List.mem_append.mp hv with hv | hv
      · exact hv
      · exact absurd (congrArg Prod.fst (List.mem_singleton.mp hv)) hk

theorem mem_keys_merge {es : List (κ × ν)} :
    k ∈ (d.merge es).keys ↔ k ∈ d.keys ∨ ∃ v, (k, v) ∈ es := by
  induction es generalizing d with
  | nil => simp [merge]
  | cons e es ih =>
    have hcons : d.merge (e :: es) = (d.set e.1 e.2).merge es := rfl
    rw [hcons, ih, mem_keys_set]
    constructor
    · rintro ((rfl | hk) | ⟨v, hv⟩)
      · exact Or.inr ⟨e.2, List.mem_cons_self⟩
      · exact Or.inl hk
      · exact Or.inr ⟨v, List.mem_cons_of_mem _ hv⟩
    · rintro (hk | ⟨v, hv⟩)
      · exact Or.inl (Or.inr hk)
      · rcases List.mem_cons.mp hv with rfl | hv
        · exact Or.inl (Or.inl rfl)
        · exact Or.inr ⟨v, hv⟩

/-- **A dictionary made of bindings that agree** has exactly those bindings. -/
theorem get?_merge_empty {es : List (κ × ν)}
    (h : ∀ k v w, (k, v) ∈ es → (k, w) ∈ es → v = w) :
    (empty.merge es).get? k = some v ↔ (k, v) ∈ es := by
  have hmem : ∀ {w}, (empty.merge es).get? k = some w → (k, w) ∈ es := by
    intro w hw
    rcases get?_merge hw with ⟨pre, post, rfl, -⟩ | hold
    · exact List.mem_append_right _ List.mem_cons_self
    · cases hold
  refine ⟨hmem, fun hv => ?_⟩
  obtain ⟨w, hw⟩ := mem_keys_iff.mp (mem_keys_merge.mpr (Or.inr ⟨v, hv⟩))
  rw [hw, h k w v (hmem hw) hv]

/-- **What a list in order says of a name** is its greatest entry of that name. -/
theorem get?_merge_pairwise {R : ν → ν → Prop} {key : ν → κ} {l : List ν} (hl : l.Pairwise R)
    (h : (empty.merge (l.map fun w => (key w, w))).get? k = some v) :
    v ∈ l ∧ key v = k ∧ ∀ w ∈ l, key w = k → w = v ∨ R w v := by
  rcases get?_merge h with ⟨pre, post, hsplit, hpost⟩ | hold
  · obtain ⟨before, rest, rfl, rfl, hrest⟩ := List.map_eq_append_iff.mp hsplit
    obtain ⟨v', after, rfl, hv, rfl⟩ := List.map_eq_cons_iff.mp hrest
    obtain ⟨hkey, rfl⟩ := Prod.mk.inj hv
    refine ⟨List.mem_append_right _ List.mem_cons_self, hkey, fun w hw hwk => ?_⟩
    rcases List.mem_append.mp hw with hw | hw
    · exact Or.inr ((List.pairwise_append.mp hl).2.2 w hw v' List.mem_cons_self)
    · rcases List.mem_cons.mp hw with rfl | hw
      · exact Or.inl rfl
      · exact absurd hwk (hpost (key w, w) (List.mem_map.mpr ⟨w, hw, rfl⟩))
  · cases hold

/-- Remove a key. -/
def pop (d : Dict κ ν) (k : κ) : Dict κ ν where
  entries := d.entries.filter fun e => e.1 ≠ k
  nodup := d.nodup.sublist (List.filter_sublist.map Prod.fst)

/-- **Lookup after a removal.** -/
theorem get?_pop : (d.pop k).get? j = if j = k then none else d.get? j := by
  refine Option.ext fun w => ?_
  rw [get?_eq_some_iff, pop, List.mem_filter]
  by_cases hj : j = k
  · simp [hj]
  · rw [if_neg hj, get?_eq_some_iff]
    simp [hj]

/-! ### Growth -/

/-- **A dictionary grows** when every binding it had is kept. -/
instance : LE (Dict κ ν) where
  le d d' := ∀ k v, d.get? k = some v → d'.get? k = some v

instance : Preorder (Dict κ ν) where
  le_refl _ _ _ h := h
  le_trans _ _ _ h h' k v hv := h' k v (h k v hv)

theorem get?_of_le (h : d ≤ d') (hv : d.get? k = some v) : d'.get? k = some v := h k v hv

theorem mem_keys_of_le (h : d ≤ d') (hk : k ∈ d.keys) : k ∈ d'.keys := by
  obtain ⟨v, hv⟩ := mem_keys_iff.mp hk
  exact mem_keys_of_get? (h k v hv)

/-- **Binding a fresh key, or a key to the value it has, only grows.** -/
theorem le_set (h : ∀ w, d.get? k = some w → w = v) : d ≤ d.set k v := by
  intro j w hw
  rw [get?_set]
  by_cases hj : j = k
  · subst hj
    rw [if_pos rfl, h w hw]
  · rw [if_neg hj, hw]

end Dict
