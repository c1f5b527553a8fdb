import PowerfarmKernel.Lib.Prog

/-!
# One store follows another

One program, two stores that answer its operations. The second follows the first along a
relation between their states when, wherever the program returns over the first, it returns the
same over the second, and the relation holds again of the states it leaves. Nothing is said of
an exception: the first store may refuse what the second accepts.

`Prog.Follows` says so of one program. The rules below prove it along the program from what the
two stores answer to one operation (`Prog.Follows.call`); a sequence of programs is a program.
-/

namespace Prog

variable {Op : Type} {Ret : Op → Type} {ε σ τ α β : Type}

/-- **What a program returns over the first store it returns over the second.** -/
def Follows (h : Handler Ret ε σ) (h' : Handler Ret ε τ) (R : σ → τ → Prop)
    (p : Prog Ret ε α) : Prop :=
  ∀ s s' a t, R s s' → p.run h s = (.ok a, t) → ∃ t', p.run h' s' = (.ok a, t') ∧ R t t'

namespace Follows

variable {h : Handler Ret ε σ} {h' : Handler Ret ε τ} {R : σ → τ → Prop}

theorem pure (a : α) : Follows h h' R (Pure.pure a : Prog Ret ε α) := by
  intro s s' b t hs hrun
  cases hrun
  exact ⟨s', rfl, hs⟩

theorem raise (e : ε) : Follows h h' R (Prog.raise e : Prog Ret ε α) := by
  intro s s' b t _ hrun
  cases hrun

theorem ofExcept (x : Except ε α) : Follows h h' R (Prog.ofExcept x : Prog Ret ε α) := by
  cases x with
  | ok a => exact pure a
  | error e => exact raise e

theorem raiseWhen (c : Prop) [Decidable c] (e : ε) :
    Follows h h' R (Prog.raiseWhen c e : Prog Ret ε Unit) := by
  rw [Prog.raiseWhen]
  split
  · exact raise e
  · exact pure ()

/-- **The rule of one operation.** -/
theorem call {o : Op} (ho : ∀ s s' a t, R s s' → h o s = (.ok a, t) →
    ∃ t', h' o s' = (.ok a, t') ∧ R t t') : Follows h h' R (Prog.call o : Prog Ret ε (Ret o)) := by
  intro s s' a t hs hrun
  rw [run_call] at hrun ⊢
  exact ho s s' a t hs hrun

/-- **The rule of sequencing.** -/
theorem bind {p : Prog Ret ε α} {f : α → Prog Ret ε β} (hp : Follows h h' R p)
    (hf : ∀ a, Follows h h' R (f a)) : Follows h h' R (p >>= f) := by
  intro s s' b u hs hrun
  obtain ⟨a, t, hfirst, hrest⟩ := run_bind_ok.mp hrun
  obtain ⟨t', hfirst', ht⟩ := hp s s' a t hs hfirst
  obtain ⟨u', hrest', hu⟩ := hf a t t' b u ht hrest
  exact ⟨u', run_bind_ok.mpr ⟨a, t', hfirst', hrest'⟩, hu⟩

theorem ite {c : Prop} [Decidable c] {p q : Prog Ret ε α} (hp : Follows h h' R p)
    (hq : Follows h h' R q) : Follows h h' R (if c then p else q) := by
  split
  · exact hp
  · exact hq

theorem mapError (f : ε → ε) {p : Prog Ret ε α} (hp : Follows h h' R p) :
    Follows h h' R (p.mapError f) := by
  intro s s' a t hs hrun
  obtain ⟨t', hrun', ht⟩ := hp s s' a t hs (run_mapError_ok.mp hrun)
  exact ⟨t', run_mapError_ok.mpr hrun', ht⟩

theorem mapM {f : α → Prog Ret ε β} (hf : ∀ a, Follows h h' R (f a)) (l : List α) :
    Follows h h' R (l.mapM f) := by
  induction l with
  | nil =>
    rw [List.mapM_nil]
    exact pure []
  | cons a l ih =>
    rw [List.mapM_cons]
    exact (hf a).bind fun _ => ih.bind fun _ => pure _

theorem anyM {f : α → Prog Ret ε Bool} (hf : ∀ a, Follows h h' R (f a)) (l : List α) :
    Follows h h' R (l.anyM f) := by
  induction l with
  | nil => exact pure false
  | cons a l ih =>
    rw [List.anyM]
    refine (hf a).bind fun b => ?_
    cases b
    · exact ih
    · exact pure true

theorem forM {f : α → Prog Ret ε Unit} (hf : ∀ a, Follows h h' R (f a)) (l : List α) :
    Follows h h' R (l.forM f) := by
  induction l with
  | nil => exact pure ()
  | cons a l ih => exact (hf a).bind fun _ => ih

end Follows

end Prog
