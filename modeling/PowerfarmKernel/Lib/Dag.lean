import Mathlib.Data.Set.Basic
import Mathlib.Logic.Relation

/-!
# Ancestry

A set of nodes with a parent relation is closed under ancestry when it contains the
parents of its members (`Dag.Closed`), and with them all their ancestors
(`Dag.closed_iff_transGen`). The closed sets are closed under unions and intersections. The
relation is acyclic when no node is a proper ancestor of itself (`Dag.Acyclic`).

Histories grow by *sinks*: a new node whose parents are there already and which is
nobody's parent. `Dag.Closed.insert` and `Dag.Acyclic.of_sink` say that neither
property is lost.
-/

namespace Dag

variable {α : Type} {r r' : α → α → Prop} {S T : Set α} {n : α}

/-- **Closed under ancestry**: with a node, its parents. -/
def Closed (r : α → α → Prop) (S : Set α) : Prop := ∀ x y, r x y → y ∈ S → x ∈ S

/-- **No node is a proper ancestor of itself.** -/
def Acyclic (r : α → α → Prop) : Prop := ∀ x, ¬Relation.TransGen r x x

/-- **A set that has the parents of its members has their ancestors.** -/
theorem closed_iff_transGen :
    Closed r S ↔ ∀ y ∈ S, ∀ x, Relation.TransGen r x y → x ∈ S := by
  constructor
  · intro h y hy x hxy
    induction hxy using Relation.TransGen.head_induction_on with
    | single hxy => exact h _ _ hxy hy
    | head hxz _ ih => exact h _ _ hxz ih
  · exact fun h x y hxy hy => h y hy x (.single hxy)

theorem Closed.union (h : Closed r S) (h' : Closed r T) : Closed r (S ∪ T) := by
  intro x y hxy hy
  exact hy.imp (h x y hxy) (h' x y hxy)

theorem Closed.inter (h : Closed r S) (h' : Closed r T) : Closed r (S ∩ T) :=
  fun x y hxy hy => ⟨h x y hxy hy.1, h' x y hxy hy.2⟩

/-- **A node added with its parents present keeps the set closed.** -/
theorem Closed.insert (h : Closed r S) (hold : ∀ x y, r' x y → y ≠ n → r x y)
    (hnew : ∀ x, r' x n → x ∈ S) : Closed r' (insert n S) := by
  intro x y hxy hy
  by_cases hyn : y = n
  · subst hyn
    exact Or.inr (hnew x hxy)
  · exact Or.inr (h x y (hold x y hxy hyn) (hy.resolve_left hyn))

/-- Where the new node is nobody's parent, a path that ends elsewhere is an old one. -/
theorem transGen_of_sink (hold : ∀ x y, r' x y → y ≠ n → r x y) (hsink : ∀ y, ¬r' n y)
    {x y : α} (h : Relation.TransGen r' x y) (hy : y ≠ n) : Relation.TransGen r x y := by
  induction h with
  | single hxy => exact .single (hold _ _ hxy hy)
  | @tail z y _ hzy ih =>
    have hz : z ≠ n := by
      rintro rfl
      exact hsink y hzy
    exact (ih hz).tail (hold _ _ hzy hy)

/-- **A new sink closes no cycle.** -/
theorem Acyclic.of_sink (h : Acyclic r) (hold : ∀ x y, r' x y → y ≠ n → r x y)
    (hsink : ∀ y, ¬r' n y) : Acyclic r' := by
  intro x hx
  have hxn : x ≠ n := by
    rintro rfl
    obtain ⟨y, hy, -⟩ := Relation.TransGen.head'_iff.mp hx
    exact hsink y hy
  exact h x (transGen_of_sink hold hsink hx hxn)

end Dag
