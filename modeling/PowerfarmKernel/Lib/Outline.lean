import Mathlib.Logic.Function.Basic
import PowerfarmKernel.Lib.Runs

/-!
# Proof outlines of processes that share a state

Several processes share a state. Each is at a point of its program, and a move of one process
takes it to another point and may change the state, as the process, its point, the state and
what the outside world answers decide. The moves of a run are made in any order.

A proof outline writes an assertion about the shared state at every point of every process
(`Outline.Assertions`). A move is sound where the process finds the assertion of its new point
true, and makes no assertion of another process false (`Outline.Sound`). Where all moves are,
all assertions hold in every run, each at the point its process has reached
(`Outline.Holds.exec`). An assertion may say that the state names the process: so a process
owns what only one of them may hold.
-/

namespace Outline

open Runs

variable {ι κ σ ε : Type}

/-- **A state and its processes**: the shared state, and the point each process is at. -/
structure Config (ι κ σ : Type) where
  shared : σ
  point : ι → κ

section Next

variable [DecidableEq ι] (move : ι → ε → κ → σ → κ × σ)

/-- One move of one process. -/
def next (c : Config ι κ σ) (e : ι × ε) : Config ι κ σ where
  shared := (move e.1 e.2 (c.point e.1) c.shared).2
  point := Function.update c.point e.1 (move e.1 e.2 (c.point e.1) c.shared).1

/-- The configuration after some moves. -/
abbrev exec (c : Config ι κ σ) (events : List (ι × ε)) : Config ι κ σ :=
  Runs.exec (next move) c events

end Next

/-- **A proof outline**: what holds at all times, and what holds while a process is at a
point. -/
structure Assertions (ι κ σ : Type) where
  inv : σ → Prop
  holds : ι → κ → σ → Prop

/-- Two outlines, taken together. -/
def Assertions.both (A B : Assertions ι κ σ) : Assertions ι κ σ where
  inv s := A.inv s ∧ B.inv s
  holds i k s := A.holds i k s ∧ B.holds i k s

variable {move : ι → ε → κ → σ → κ × σ} (A : Assertions ι κ σ)

/-- **A move is sound**: the process finds the assertion of its new point true, and the
assertions of the others are not interfered with. -/
structure Sound (i : ι) (s s' : σ) (k' : κ) : Prop where
  inv : A.inv s'
  own : A.holds i k' s'
  others : ∀ j, j ≠ i → ∀ k, A.holds j k s → A.holds j k s'

/-- All assertions hold. -/
structure Holds (c : Config ι κ σ) : Prop where
  inv : A.inv c.shared
  each : ∀ i, A.holds i (c.point i) c.shared

variable {A} [DecidableEq ι] {c : Config ι κ σ} {events : List (ι × ε)}

/-- **One move.** -/
theorem Holds.next {e : ι × ε} (hmove : ∀ k s, A.inv s → A.holds e.1 k s →
      Sound A e.1 s (move e.1 e.2 k s).2 (move e.1 e.2 k s).1)
    (h : Holds A c) : Holds A (Outline.next move c e) := by
  have hsound := hmove _ _ h.inv (h.each e.1)
  refine ⟨hsound.inv, fun j => ?_⟩
  dsimp only [Outline.next]
  by_cases hj : j = e.1
  · subst hj
    rw [Function.update_self]
    exact hsound.own
  · rw [Function.update_of_ne hj]
    exact hsound.others j hj _ (h.each j)

/-- **Every run with some moves only**: where all of these are sound, all assertions hold for
good. -/
theorem Holds.exec_where (allowed : ι × ε → Prop) (hmove : ∀ i e k s, allowed (i, e) → A.inv s →
      A.holds i k s → Sound A i s (move i e k s).2 (move i e k s).1)
    (h : Holds A c) (events : List (ι × ε)) (hall : ∀ e ∈ events, allowed e) :
    Holds A (Outline.exec move c events) := by
  induction events using List.reverseRecOn with
  | nil => exact h
  | append_singleton events e ih =>
    rw [Outline.exec, exec_concat]
    have hlast : allowed e := hall e (List.mem_append_right _ (List.mem_singleton_self e))
    exact (ih fun e he => hall e (List.mem_append_left _ he)).next
      fun k s => hmove e.1 e.2 k s hlast

/-- **Every run**: where all moves are sound, all assertions hold for good. -/
theorem Holds.exec (hmove : ∀ i e k s, A.inv s → A.holds i k s →
      Sound A i s (move i e k s).2 (move i e k s).1)
    (h : Holds A c) (events : List (ι × ε)) : Holds A (Outline.exec move c events) :=
  h.exec_where (fun _ => True) (fun i e k s _ => hmove i e k s) events fun _ _ => trivial

/-- **An outline on top of another**: its moves need be sound only where the other holds. -/
theorem Holds.exec_above {B : Assertions ι κ σ}
    (hmove : ∀ i e k s, A.inv s → A.holds i k s →
      Sound A i s (move i e k s).2 (move i e k s).1)
    (habove : ∀ i e k s, A.inv s → A.holds i k s → B.inv s → B.holds i k s →
      Sound B i s (move i e k s).2 (move i e k s).1)
    (h : Holds A c) (hB : Holds B c) (events : List (ι × ε)) :
    Holds B (Outline.exec move c events) := by
  have hstart : Holds (A.both B) c :=
    ⟨⟨h.inv, hB.inv⟩, fun i => ⟨h.each i, hB.each i⟩⟩
  have hboth : ∀ i e k s, (A.both B).inv s → (A.both B).holds i k s →
      Sound (A.both B) i s (move i e k s).2 (move i e k s).1 := by
    intro i e k s hinv hk
    have hfirst := hmove i e k s hinv.1 hk.1
    have hsecond := habove i e k s hinv.1 hk.1 hinv.2 hk.2
    exact ⟨⟨hfirst.inv, hsecond.inv⟩, ⟨hfirst.own, hsecond.own⟩, fun j hj k' hk' =>
      ⟨hfirst.others j hj k' hk'.1, hsecond.others j hj k' hk'.2⟩⟩
  have hexec := hstart.exec hboth events
  exact ⟨hexec.inv.2, fun i => (hexec.each i).2⟩

end Outline
