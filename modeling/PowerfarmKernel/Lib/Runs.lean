import Mathlib.Data.List.Infix
import Mathlib.Order.Basic

/-!
# Runs of calls

A component that answers one call after another is a function `step : σ → ι → σ`, and
its run is the fold of a list of calls (`Runs.exec`). The calls of a run are named by
what was called before them: `Runs.Made calls pre c` says that the run of `calls` makes
the call `c` after the calls `pre`, so `Runs.exec step s pre` is the state it is made
in. Calls of one run are ordered by their prefixes (`Runs.Made.total`).

Two rules carry a property of one call to a whole run: `Runs.exec_inv`, for what every
call preserves, and `Runs.exec_rel`, for a relation every call stays within.
-/

namespace Runs

variable {σ ι : Type} {step : σ → ι → σ} {s : σ} {calls pre pre' : List ι} {c c' : ι}

/-- **The state after a list of calls.** -/
def exec (step : σ → ι → σ) (s : σ) (calls : List ι) : σ := calls.foldl step s

@[simp] theorem exec_nil : exec step s [] = s := rfl

@[simp] theorem exec_concat : exec step s (calls ++ [c]) = step (exec step s calls) c :=
  List.foldl_concat ..

/-- **The invariant rule.** -/
theorem exec_inv {Inv : σ → Prop} (hstep : ∀ s c, Inv s → Inv (step s c)) (h : Inv s)
    (calls : List ι) : Inv (exec step s calls) := by
  induction calls using List.reverseRecOn with
  | nil => exact h
  | append_singleton calls c ih =>
    rw [exec_concat]
    exact hstep _ _ ih

/-- **The run of `calls` makes the call `c` after the calls `pre`.** -/
def Made (calls pre : List ι) (c : ι) : Prop := pre ++ [c] <+: calls

theorem Made.earlier (h : Made calls pre c) : pre <+: calls :=
  (List.prefix_append pre [c]).trans h

theorem Made.mem (h : Made calls pre c) : c ∈ calls :=
  h.subset (List.mem_append_right _ (List.mem_singleton_self c))

theorem Made.mono (h : Made pre pre' c') (hpre : pre <+: calls) : Made calls pre' c' :=
  List.IsPrefix.trans h hpre

@[simp] theorem not_made_nil : ¬Made ([] : List ι) pre c := by
  intro h
  exact List.append_ne_nil_of_right_ne_nil _ (List.cons_ne_nil c []) (List.prefix_nil.mp h)

/-- **The calls of a longer run**: its last call, and those of the shorter one. -/
theorem made_concat_iff : Made (calls ++ [c]) pre' c' ↔
    Made calls pre' c' ∨ (pre' = calls ∧ c' = c) := by
  rw [Made, List.prefix_concat_iff, or_comm]
  refine or_congr Iff.rfl ⟨fun h => ?_, ?_⟩
  · have := List.append_inj' h rfl
    exact ⟨this.1, List.singleton_inj.mp this.2⟩
  · rintro ⟨rfl, rfl⟩
    rfl

/-- **Two calls of a run are one call, or one was made before the other.** -/
theorem Made.total (h : Made calls pre c) (h' : Made calls pre' c') :
    (pre = pre' ∧ c = c') ∨ Made pre' pre c ∨ Made pre pre' c' := by
  induction calls using List.reverseRecOn with
  | nil => exact absurd h not_made_nil
  | append_singleton calls d ih =>
    rcases made_concat_iff.mp h with hold | ⟨rfl, rfl⟩
    · rcases made_concat_iff.mp h' with hold' | ⟨rfl, rfl⟩
      · exact ih hold hold'
      · exact Or.inr (Or.inl hold)
    · rcases made_concat_iff.mp h' with hold' | ⟨rfl, rfl⟩
      · exact Or.inr (Or.inr hold')
      · exact Or.inl ⟨rfl, rfl⟩

/-- **A relation every call stays within** relates an earlier state of a run to a later
one. -/
theorem exec_rel {R : σ → σ → Prop} (hrefl : ∀ s, R s s)
    (htrans : ∀ {s t u}, R s t → R t u → R s u) (hstep : ∀ s c, R s (step s c))
    (h : pre <+: calls) : R (exec step s pre) (exec step s calls) := by
  induction calls using List.reverseRecOn with
  | nil =>
    rw [List.prefix_nil.mp h]
    exact hrefl _
  | append_singleton calls c ih =>
    rcases List.prefix_concat_iff.mp h with rfl | h
    · exact hrefl _
    · rw [exec_concat]
      exact htrans (ih h) (hstep _ _)

/-- A property of every call of a run is checked along its list of calls. -/
theorem forall_made_iff {p : List ι → ι → Prop} : (∀ pre c, Made calls pre c → p pre c) ↔
    ∀ i (h : i < calls.length), p (calls.take i) calls[i] := by
  constructor
  · intro hall i h
    refine hall _ _ ?_
    rw [Made, List.take_append_getElem]
    exact List.take_prefix _ _
  · intro hall pre c hmade
    obtain ⟨post, rfl⟩ := hmade
    have hlen : pre.length < (pre ++ [c] ++ post).length := by
      simp only [List.length_append, List.length_cons, List.length_nil]
      omega
    have := hall pre.length hlen
    simpa [List.append_assoc] using this

end Runs
