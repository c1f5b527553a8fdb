import Mathlib.Data.List.Nodup

/-!
# Unique indexes

The rows of a table with a unique index have keys of their own. A partial index promises that
only for the rows that meet a condition. A row can be inserted where no row that the index
covers has its key (`List.nodup_map_filter_concat`).
-/

namespace List

variable {α κ : Type} {key : α → κ} {p : α → Bool} {l : List α} {a : α}

/-- **A row with a key of its own can be inserted.** -/
theorem nodup_map_concat (hl : (l.map key).Nodup) (ha : ∀ b ∈ l, key b ≠ key a) :
    ((l ++ [a]).map key).Nodup := by
  rw [map_append, map_singleton, nodup_append]
  refine ⟨hl, nodup_singleton _, ?_⟩
  intro x hx y hy
  obtain ⟨b, hb, rfl⟩ := mem_map.mp hx
  rw [mem_singleton.mp hy]
  exact ha b hb

/-- **The same of a partial index**, which may not cover the row. -/
theorem nodup_map_filter_concat (hl : ((l.filter p).map key).Nodup)
    (ha : p a = true → ∀ b ∈ l, p b = true → key b ≠ key a) :
    (((l ++ [a]).filter p).map key).Nodup := by
  rw [filter_append]
  by_cases hp : p a = true
  · rw [filter_singleton, hp]
    refine nodup_map_concat hl fun b hb => ?_
    exact ha hp b (mem_filter.mp hb).1 (mem_filter.mp hb).2
  · rw [filter_singleton, eq_false_of_ne_true hp]
    rwa [cond_false, append_nil]

end List
