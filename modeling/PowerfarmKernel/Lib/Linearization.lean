import Mathlib.Data.List.Perm.Basic
import Mathlib.Data.List.Nodup
import Mathlib.Data.Set.Insert
import Mathlib.Logic.Relation
import PowerfarmKernel.Lib.Runs

/-!
# Linearizations of an ancestry

A finite set of nodes with a parent relation has many listings in which every node
stands after its parents (`Dag.Linearizes`). A fold over such a listing does not depend
on the choice, as soon as the step commutes on any two nodes neither of which is an
ancestor of the other: that is `Dag.Linearizes.foldl_eq`.

Two listings may differ by a long permutation, so the argument is by their heads. The
head of the one listing stands somewhere in the other, and what stands before it there is
incomparable with it: it may be moved to the front (`Dag.foldl_move_front`), and the rest
is a shorter pair of listings.
-/

namespace Dag

variable {α σ : Type} {r : α → α → Prop} {S : Set α} {l l' : List α} {a b : α}

/-! ### Folds over permuted lists -/

section Fold

variable {f : σ → α → σ} {before : α → α → Prop}

/-- A step that commutes with every step before it may be made first. -/
theorem foldl_move_front {pre : List α} (hcomm : ∀ b ∈ pre, ∀ s, f (f s b) a = f (f s a) b)
    (s : σ) : f (pre.foldl f s) a = pre.foldl f (f s a) := by
  induction pre generalizing s with
  | nil => rfl
  | cons b pre ih =>
    have hrest : ∀ c ∈ pre, ∀ s, f (f s c) a = f (f s a) c :=
      fun c hc => hcomm c (List.mem_cons_of_mem b hc)
    rw [List.foldl_cons, List.foldl_cons, ih hrest, hcomm b List.mem_cons_self]

/-- **Two orders of the same steps that never invert `before` fold to the same state**,
where steps that `before` does not compare commute. -/
theorem foldl_eq_of_perm (hcomm : ∀ a ∈ l, ∀ b ∈ l, ¬before a b → ¬before b a →
      ∀ s, f (f s a) b = f (f s b) a)
    (hperm : l.Perm l') (h : l.Pairwise fun a b => ¬before b a)
    (h' : l'.Pairwise fun a b => ¬before b a) (s : σ) : l.foldl f s = l'.foldl f s := by
  induction l generalizing l' s with
  | nil => rw [hperm.nil_eq]
  | cons a l ih =>
    -- a place of `a` in the other order, and what stands before it there
    have hmem : a ∈ l' := hperm.subset List.mem_cons_self
    obtain ⟨pre, post, rfl⟩ := List.append_of_mem hmem
    have hrest : l.Perm (pre ++ post) :=
      (hperm.trans List.perm_middle).cons_inv
    have hfront : ∀ b ∈ pre, ∀ s, f (f s b) a = f (f s a) b := by
      intro b hb
      have hbl : b ∈ l := hrest.symm.subset (List.mem_append_left post hb)
      have hab : ¬before b a := (List.pairwise_cons.mp h).1 b hbl
      have hba : ¬before a b :=
        (List.pairwise_append.mp h').2.2 b hb a List.mem_cons_self
      exact hcomm b (List.mem_cons_of_mem a hbl) a List.mem_cons_self hab hba
    have hpost : (pre ++ post).Pairwise fun a b => ¬before b a :=
      h'.sublist ((List.sublist_cons_self a post).append_left pre)
    calc l.foldl f (f s a)
        = (pre ++ post).foldl f (f s a) :=
          ih (fun c hc d hd => hcomm c (List.mem_cons_of_mem a hc) d (List.mem_cons_of_mem a hd))
            hrest (List.pairwise_cons.mp h).2 hpost (f s a)
      _ = (pre ++ a :: post).foldl f s := by
          rw [List.foldl_append, List.foldl_append, List.foldl_cons, foldl_move_front hfront]

end Fold

/-! ### Listings of a set -/

/-- **A listing of `S` along its ancestry**: every node once, each after those of its
parents that are in `S`. -/
structure Linearizes (r : α → α → Prop) (S : Set α) (l : List α) : Prop where
  mem : ∀ a, a ∈ l ↔ a ∈ S
  nodup : l.Nodup
  parents : ∀ pre a, Runs.Made l pre a → ∀ p ∈ S, r p a → p ∈ pre

/-- **The ancestors of a node in `S`**, along parents in `S`. -/
def Ancestor (r : α → α → Prop) (S : Set α) : α → α → Prop :=
  Relation.TransGen fun p a => p ∈ S ∧ r p a

namespace Linearizes

/-- **A node stands after all its ancestors**, not after its parents only. -/
theorem ancestor_mem (h : Linearizes r S l) {pre : List α} (hmade : Runs.Made l pre a)
    (hanc : Ancestor r S b a) : b ∈ pre := by
  induction hanc generalizing pre with
  | single hpa => exact h.parents pre _ hmade _ hpa.1 hpa.2
  | tail _ hqa ih =>
    have hq := h.parents pre _ hmade _ hqa.1 hqa.2
    obtain ⟨before, after, rfl⟩ := List.append_of_mem hq
    have hearlier : Runs.Made l before _ :=
      Runs.Made.mono ⟨after, by rw [List.append_assoc, List.singleton_append]⟩ hmade.earlier
    exact List.mem_append_left _ (ih hearlier)

/-- A listing never puts a node before its ancestor. -/
theorem pairwise (h : Linearizes r S l) : l.Pairwise fun a b => ¬Ancestor r S b a := by
  rw [List.pairwise_iff_getElem]
  intro i j hi hj hij hanc
  have hmade : Runs.Made l (l.take i) l[i] := by
    rw [Runs.Made, List.take_append_getElem]
    exact List.take_prefix _ _
  obtain ⟨k, hk, heq⟩ := List.mem_take_iff_getElem.mp (h.ancestor_mem hmade hanc)
  have : k = j := h.nodup.getElem_inj_iff.mp heq
  omega

/-- **A sink goes to the end of a listing**: a new node that is nobody's parent. -/
theorem concat (h : Linearizes r S l) (hnew : a ∉ S) (hsink : ∀ b ∈ S, ¬r a b) (hself : ¬r a a) :
    Linearizes r (insert a S) (l ++ [a]) where
  mem b := by
    rw [List.mem_append, List.mem_singleton, h.mem, Set.mem_insert_iff, or_comm]
  nodup := by
    refine List.nodup_append.mpr ⟨h.nodup, List.nodup_singleton a, ?_⟩
    rintro b hb c hc rfl
    rw [List.mem_singleton.mp hc] at hb
    exact hnew ((h.mem a).mp hb)
  parents pre b hmade p hp hpb := by
    rcases Runs.made_concat_iff.mp hmade with hold | ⟨rfl, rfl⟩
    · have hb : b ∈ S := (h.mem b).mp hold.mem
      rcases hp with rfl | hp
      · exact absurd hpb (hsink b hb)
      · exact h.parents pre b hold p hp hpb
    · rcases hp with rfl | hp
      · exact absurd hpb hself
      · exact (h.mem p).mpr hp

/-- Two listings of one set are permutations of each other. -/
theorem perm (h : Linearizes r S l) (h' : Linearizes r S l') : l.Perm l' :=
  (List.perm_ext_iff_of_nodup h.nodup h'.nodup).mpr fun a => (h.mem a).trans (h'.mem a).symm

/-- **A fold over a set does not depend on its listing**, where steps at incomparable nodes
commute. -/
theorem foldl_eq {f : σ → α → σ} (hcomm : ∀ a ∈ S, ∀ b ∈ S, ¬Ancestor r S a b →
      ¬Ancestor r S b a → ∀ s, f (f s a) b = f (f s b) a)
    (h : Linearizes r S l) (h' : Linearizes r S l') (s : σ) : l.foldl f s = l'.foldl f s :=
  foldl_eq_of_perm (fun a ha b hb => hcomm a ((h.mem a).mp ha) b ((h.mem b).mp hb))
    (h.perm h') h.pairwise h'.pairwise s

end Linearizes

end Dag
