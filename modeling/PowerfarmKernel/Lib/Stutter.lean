import Mathlib.Data.List.Destutter
import Mathlib.Data.List.Sort

/-!
# Ordered lists that stutter

An item that stands in a list again right after itself is a stutter, and
`List.destutter (· ≠ ·)` drops it. A list without its stutters is a given ordered list exactly
when it is in order itself, up to stutters, and has the same items
(`List.destutter_eq_iff`).

What is done in order can be extended at the end: an ordered list begins with an ordered part
of it, if the other items come after that part (`List.prefix_of_pairwise`).
-/

namespace List

variable {α : Type} [DecidableEq α] {r : α → α → Prop} {l m : List α} {a b : α}

theorem mem_destutter'_ne : b ∈ l.destutter' (· ≠ ·) a ↔ b = a ∨ b ∈ l := by
  induction l generalizing a with
  | nil => simp
  | cons c l ih =>
    by_cases h : a = c
    · subst h
      rw [destutter'_cons_neg _ (not_not.mpr rfl), ih, mem_cons]
      tauto
    · rw [destutter'_cons_pos _ h, mem_cons, ih, mem_cons]

/-- Dropping the stutters drops no item. -/
theorem mem_destutter_ne : b ∈ l.destutter (· ≠ ·) ↔ b ∈ l := by
  cases l with
  | nil => rfl
  | cons a l => rw [destutter_cons', mem_destutter'_ne, mem_cons]

theorem pairwise_destutter'_ne (hrefl : ∀ a, r a a) :
    (l.destutter' (· ≠ ·) a).Pairwise r ↔ (a :: l).Pairwise r := by
  induction l generalizing a with
  | nil => rfl
  | cons c l ih =>
    by_cases h : a = c
    · subst h
      rw [destutter'_cons_neg _ (not_not.mpr rfl), ih, pairwise_cons (a := a) (l := a :: l)]
      refine ⟨fun hp => ⟨fun b hb => ?_, hp⟩, And.right⟩
      rcases mem_cons.mp hb with rfl | hb
      · exact hrefl b
      · exact (pairwise_cons.mp hp).1 b hb
    · rw [destutter'_cons_pos _ h, pairwise_cons, pairwise_cons, ih]
      simp only [mem_destutter'_ne, mem_cons]

/-- Dropping the stutters does not change whether a list is in order. -/
theorem pairwise_destutter_ne (hrefl : ∀ a, r a a) :
    (l.destutter (· ≠ ·)).Pairwise r ↔ l.Pairwise r := by
  cases l with
  | nil => rfl
  | cons a l => rw [destutter_cons', pairwise_destutter'_ne hrefl]

omit [DecidableEq α] in
/-- An ordered list holds no item twice. -/
theorem nodup_of_pairwise (hr : ∀ a b, r a b → ¬r b a) (hl : l.Pairwise r) : l.Nodup := by
  refine hl.imp ?_
  rintro a _ hab rfl
  exact hr a a hab hab

/-- **A list is an ordered list up to stutters** exactly when it is in order up to stutters,
and has the same items. -/
theorem destutter_eq_iff (hr : ∀ a b, r a b → ¬r b a) (hm : m.Pairwise r) :
    l.destutter (· ≠ ·) = m ↔
      l.Pairwise (fun a b => a = b ∨ r a b) ∧ ∀ a, a ∈ l ↔ a ∈ m := by
  have hrefl : ∀ a : α, a = a ∨ r a a := fun a => Or.inl rfl
  constructor
  · rintro rfl
    exact ⟨(pairwise_destutter_ne hrefl).mp (hm.imp Or.inr), fun a => mem_destutter_ne.symm⟩
  · rintro ⟨hl, hmem⟩
    have hnodup : m.Nodup := nodup_of_pairwise hr hm
    have hanti : Std.Antisymm fun a b => a = b ∨ r a b :=
      ⟨fun a b hab hba =>
        hab.elim id fun hab => hba.elim Eq.symm fun hba => absurd hba (hr a b hab)⟩
    have hdedup := hl.destutter_eq_dedup
    have hperm : l.dedup.Perm m :=
      (perm_ext_iff_of_nodup (nodup_dedup l) hnodup).mpr fun a => mem_dedup.trans (hmem a)
    rw [hdedup]
    refine hperm.eq_of_pairwise (fun a b _ _ hab hba => hanti.antisymm a b hab hba) ?_
      (hm.imp Or.inr)
    rw [← hdedup]
    exact (pairwise_destutter_ne hrefl).mpr hl

/-- **An ordered list begins with an ordered part of it**, if its other items come after that
part. -/
theorem prefix_of_pairwise (hr : ∀ a b, r a b → ¬r b a) (hm : m.Pairwise r) (hl : l.Pairwise r)
    (hsub : l ⊆ m) (hafter : ∀ a ∈ m, a ∉ l → ∀ b ∈ l, r b a) : l <+: m := by
  have hrest : (m.filter (· ∉ l)).Pairwise r := hm.filter _
  have hpair : (l ++ m.filter (· ∉ l)).Pairwise r := by
    refine pairwise_append.mpr ⟨hl, hrest, fun b hb a ha => ?_⟩
    obtain ⟨ham, hal⟩ := mem_filter.mp ha
    exact hafter a ham (of_decide_eq_true hal) b hb
  have hperm : (l ++ m.filter (· ∉ l)).Perm m := by
    refine (perm_ext_iff_of_nodup (nodup_of_pairwise hr hpair)
      (nodup_of_pairwise hr hm)).mpr fun a => ?_
    simp only [mem_append, mem_filter, decide_eq_true_eq]
    refine ⟨fun h => h.elim (fun h => hsub h) And.left, fun h => ?_⟩
    by_cases ha : a ∈ l
    · exact Or.inl ha
    · exact Or.inr ⟨h, ha⟩
  have heq := hperm.eq_of_pairwise (fun a b _ _ hab hba => absurd hba (hr a b hab)) hpair hm
  exact ⟨_, heq⟩

end List
