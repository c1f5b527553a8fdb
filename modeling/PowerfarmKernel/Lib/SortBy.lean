import Mathlib.Data.List.Sort

/-!
# Sorting by a key

`List.sortBy key` sorts a list by a key, and keeps the order of items with one key. Where
no two items have one key, the result depends on the items alone and not on the order they
are listed in (`List.sortBy_congr`).
-/

namespace List

variable {α κ : Type} [LinearOrder κ] {key : α → κ} {l l' : List α} {a : α}

/-- The order of two items by their keys. -/
def KeyLe (key : α → κ) (a b : α) : Prop := key a ≤ key b

instance : DecidableRel (KeyLe key) := fun a b => inferInstanceAs (Decidable (key a ≤ key b))

instance : Std.Total (KeyLe key) := ⟨fun a b => le_total (key a) (key b)⟩

instance : IsTrans α (KeyLe key) := ⟨fun _ _ _ => le_trans⟩

/-- **A list in the order of a key.** -/
def sortBy (key : α → κ) (l : List α) : List α := l.insertionSort (KeyLe key)

theorem perm_sortBy (key : α → κ) (l : List α) : (l.sortBy key).Perm l :=
  perm_insertionSort _ l

@[simp] theorem mem_sortBy : a ∈ l.sortBy key ↔ a ∈ l := (perm_sortBy key l).mem_iff

/-- **Items with keys of their own have one order.** -/
theorem sortBy_congr (hinj : ∀ a ∈ l, ∀ b ∈ l, key a = key b → a = b) (h : l.Perm l') :
    l.sortBy key = l'.sortBy key := by
  have hperm : (l.sortBy key).Perm (l'.sortBy key) :=
    (perm_sortBy key l).trans (h.trans (perm_sortBy key l').symm)
  refine hperm.eq_of_pairwise (fun a b ha hb hab hba => ?_)
    (pairwise_insertionSort (KeyLe key) l) (pairwise_insertionSort (KeyLe key) l')
  exact hinj a (mem_sortBy.mp ha) b (h.mem_iff.mpr (mem_sortBy.mp hb)) (le_antisymm hab hba)

end List
