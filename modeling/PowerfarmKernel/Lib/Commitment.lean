import Mathlib.Data.Finset.Card
import Mathlib.Data.List.Infix
import Mathlib.Data.List.Nodup

/-!
# Histories that commit to their past

A history grows at its end. Every entry has a key, and names a set of keys; the history
commits to its past, from a base on, when what an entry beyond the base names is the keys of
all the entries before it (`Commitment.Commits`).

Such an entry says what came before it, but not in which order. The order is there all the
same: each of the entries before it says what came before *it*. So where a key determines
the entry, the key of one entry determines the whole history up to that entry, in order
(`Commitment.Commits.eq_of_key`).
-/

namespace Commitment

variable {α κ : Type} [DecidableEq κ] {key : α → κ} {past : α → Finset κ} {base l l' : List α}
  {a : α}

/-- **A history that commits to its past**, from a base on. -/
structure Commits (key : α → κ) (past : α → Finset κ) (base l : List α) : Prop where
  start : base <+: l
  nodup : (l.map key).Nodup
  names : ∀ before a after, l = before ++ a :: after → base <+: before →
    past a = (before.map key).toFinset

namespace Commits

theorem refl (hnodup : (base.map key).Nodup) : Commits key past base base where
  start := List.prefix_rfl
  nodup := hnodup
  names before a after heq hbase := by
    have hlen := congrArg List.length heq
    have hle := hbase.length_le
    simp only [List.length_append, List.length_cons] at hlen
    omega

/-- One more entry, which names the keys of all the others. -/
theorem concat (h : Commits key past base l) (hfresh : ∀ b ∈ l, key b ≠ key a)
    (hpast : past a = (l.map key).toFinset) : Commits key past base (l ++ [a]) where
  start := h.start.trans (List.prefix_append _ _)
  nodup := by
    rw [List.map_append, List.nodup_append]
    refine ⟨h.nodup, List.nodup_singleton _, ?_⟩
    intro k hk k' hk' heq
    obtain ⟨b, hb, rfl⟩ := List.mem_map.mp hk
    exact hfresh b hb (heq.trans (List.mem_singleton.mp hk'))
  names before b after heq hbase := by
    rcases List.eq_nil_or_concat after with rfl | ⟨after, c, rfl⟩
    · obtain ⟨rfl, hab⟩ := List.append_inj' heq rfl
      cases hab
      exact hpast
    · -- The entry was there before.
      rw [List.concat_eq_append, ← List.cons_append, ← List.append_assoc] at heq
      exact h.names before b after (List.append_inj' heq rfl).1 hbase

/-- The entries before one beyond the base commit to their past as well. -/
theorem before (h : Commits key past base l) {before after : List α}
    (heq : l = before ++ a :: after) (hbase : base <+: before) :
    Commits key past base before where
  start := hbase
  nodup := by
    have hnodup := h.nodup
    rw [heq, List.map_append, List.nodup_append] at hnodup
    exact hnodup.1
  names pre b post hpre hb := by
    refine h.names pre b (post ++ a :: after) ?_ hb
    rw [heq, hpre, List.append_assoc]
    rfl

/-- No entry before one beyond the base has its key. -/
theorem key_ne (h : Commits key past base l) {before after : List α} {b : α}
    (heq : l = before ++ a :: after) (hb : b ∈ before) : key b ≠ key a := by
  have hnodup := h.nodup
  rw [heq, List.map_append, List.nodup_append] at hnodup
  exact hnodup.2.2 (key b) (List.mem_map_of_mem hb) (key a)
    (List.mem_map_of_mem List.mem_cons_self)

/-- An entry beyond the base is at one place, and all of the base is before it. -/
theorem exists_split (h : Commits key past base l) (ha : a ∈ l) (hnew : a ∉ base) :
    ∃ before after, l = before ++ a :: after ∧ base <+: before := by
  obtain ⟨before, after, rfl⟩ := List.append_of_mem ha
  refine ⟨before, after, rfl, ?_⟩
  rcases List.prefix_or_prefix_of_prefix h.start (List.prefix_append before (a :: after)) with
    hbase | hbefore
  · exact hbase
  · obtain ⟨rest, rfl⟩ := hbefore
    rcases rest with _ | ⟨b, rest⟩
    · rw [List.append_nil]
    · -- Else the base would reach to the entry.
      obtain ⟨more, hmore⟩ := h.start
      rw [List.append_assoc] at hmore
      have heq : b :: (rest ++ more) = a :: after := List.append_cancel_left hmore
      cases heq
      exact absurd (List.mem_append_right _ List.mem_cons_self) hnew

theorem notMem_base (h : Commits key past base l) {before after : List α}
    (heq : l = before ++ a :: after) (hbase : base <+: before) : a ∉ base :=
  fun ha => h.key_ne heq (hbase.subset ha) rfl

/-- As many keys are named as there are entries before. -/
theorem card_past (h : Commits key past base l) {before after : List α}
    (heq : l = before ++ a :: after) (hbase : base <+: before) :
    (past a).card = before.length := by
  rw [h.names before a after heq hbase,
    List.toFinset_card_of_nodup (h.before heq hbase).nodup, List.length_map]

/-- **A key determines the history.** Two histories over one base commit to their past, and
where they have a key in common beyond the base, they have the entry in common. Then up to
such a key they are the same. -/
theorem eq_of_key (h : Commits key past base l) (h' : Commits key past base l')
    (hbinding : ∀ a ∈ l, ∀ b ∈ l', a ∉ base → b ∉ base → key a = key b → a = b)
    {before after before' after' : List α} {a a' : α} (heq : l = before ++ a :: after)
    (heq' : l' = before' ++ a' :: after') (hbase : base <+: before) (hbase' : base <+: before')
    (hkey : key a = key a') : a = a' ∧ before = before' := by
  have hsame : ∀ {before after before' after' : List α} {a a' : α}, l = before ++ a :: after →
      l' = before' ++ a' :: after' → base <+: before → base <+: before' → key a = key a' →
      a = a' := by
    intro before after before' after' a a' heq heq' hbase hbase' hkey
    exact hbinding a (heq ▸ by simp) a' (heq' ▸ by simp) (h.notMem_base heq hbase)
      (h'.notMem_base heq' hbase') hkey
  refine ⟨hsame heq heq' hbase hbase' hkey, ?_⟩
  induction before using List.reverseRecOn generalizing a after before' a' after' with
  | nil =>
    -- No entry is named, and so none comes before.
    have hcard := h.card_past heq hbase
    rw [hsame heq heq' hbase hbase' hkey, h'.card_past heq' hbase'] at hcard
    exact (List.eq_nil_of_length_eq_zero hcard).symm
  | append_singleton pre x ih =>
    have hcard := h.card_past heq hbase
    rw [hsame heq heq' hbase hbase' hkey, h'.card_past heq' hbase'] at hcard
    rcases List.prefix_concat_iff.mp hbase with rfl | hpre
    · -- Nothing but the base comes before.
      exact hbase'.eq_of_length hcard.symm
    · -- The last entry before is named by the other history's entry, and so it is there too.
      have hxl : l = pre ++ x :: (a :: after) := by rw [heq, List.append_assoc]; rfl
      have hnamed : key x ∈ past a' := by
        rw [← hsame heq heq' hbase hbase' hkey, h.names _ _ _ heq hbase]
        simp
      rw [h'.names _ _ _ heq' hbase', List.mem_toFinset, List.mem_map] at hnamed
      obtain ⟨y, hy, hxy⟩ := hnamed
      have hynew : y ∉ base := fun hy' => h.key_ne hxl (hpre.subset hy') hxy
      obtain ⟨p, q, hpq, hbasep⟩ := (h'.before heq' hbase').exists_split hy hynew
      have hyl : l' = p ++ y :: (q ++ a' :: after') := by
        rw [heq', hpq, List.append_assoc]
        rfl
      obtain rfl := ih hxl hyl hpre hbasep hxy.symm
      obtain rfl := hsame hxl hyl hpre hbasep hxy.symm
      -- There is no room for more.
      rw [hpq] at hcard
      simp only [List.length_append, List.length_cons, List.length_nil] at hcard
      rw [hpq, List.eq_nil_of_length_eq_zero (by omega : q.length = 0)]

end Commits

end Commitment
