import PowerfarmKernel.Lib.Prog

/-!
# Answers that carry over

One program, two states of one store. `Prog.Carries h s t p` says that what `p` returns in
the state `s` it returns in the state `t` as well, and that it changes neither. Nothing is
said of an exception: a program that raises in `s` may return in `t`. So a check that fails
in `s` and holds in `t` is carried all the same, and the rules below compose such programs
without looking at the answers of their checks.
-/

namespace Prog

variable {Op : Type} {Ret : Op → Type} {ε σ α β : Type}

/-- **What a program returns in one state it returns in the other**, changing neither. -/
def Carries (h : Handler Ret ε σ) (s t : σ) (p : Prog Ret ε α) : Prop :=
  ∀ a s', p.run h s = (.ok a, s') → s' = s ∧ p.run h t = (.ok a, t)

namespace Carries

variable {h : Handler Ret ε σ} {s t : σ}

@[simp] theorem pure (a : α) : Carries h s t (Pure.pure a : Prog Ret ε α) := by
  rintro b s' hrun
  cases hrun
  exact ⟨rfl, rfl⟩

@[simp] theorem raise (e : ε) : Carries h s t (Prog.raise e : Prog Ret ε α) := by
  rintro b s' hrun
  cases hrun

@[simp] theorem ofExcept (x : Except ε α) :
    Carries h s t (Prog.ofExcept x : Prog Ret ε α) := by
  cases x with
  | ok a => exact pure a
  | error e => exact raise e

@[simp] theorem raiseWhen (c : Prop) [Decidable c] (e : ε) :
    Carries h s t (Prog.raiseWhen c e : Prog Ret ε Unit) := by
  rw [Prog.raiseWhen]
  split
  · exact raise e
  · exact pure ()

/-- An operation that reads, answered in both states alike when it is answered. -/
theorem call {o : Op} (hs : (h o s).2 = s) (ht : (h o t).2 = t)
    (hsame : ∀ a, (h o s).1 = .ok a → (h o t).1 = .ok a) :
    Carries h s t (Prog.call o : Prog Ret ε (Ret o)) := by
  intro a s' hrun
  rw [run_call] at hrun ⊢
  refine ⟨?_, Prod.ext (hsame a ?_) ht⟩
  · rw [← hs, hrun]
  · rw [hrun]

/-- **The rule of sequencing.** -/
theorem bind {p : Prog Ret ε α} {f : α → Prog Ret ε β} (hp : Carries h s t p)
    (hf : ∀ a, Carries h s t (f a)) : Carries h s t (p >>= f) := by
  intro b s' hrun
  obtain ⟨a, u, hfirst, hrest⟩ := run_bind_ok.mp hrun
  obtain ⟨rfl, hfirst'⟩ := hp a u hfirst
  obtain ⟨hs', hrest'⟩ := hf a b s' hrest
  exact ⟨hs', (run_bind_of_eq hfirst').trans hrest'⟩

theorem ite {c : Prop} [Decidable c] {p q : Prog Ret ε α} (hp : Carries h s t p)
    (hq : Carries h s t q) : Carries h s t (if c then p else q) := by
  split
  · exact hp
  · exact hq

/-- **A check that does not get stricter is carried**: the program raises when the check
fails, and a check that holds in the one state holds in the other. -/
theorem check {p : Prog Ret ε Bool} {f : Bool → Prog Ret ε β} (hs : (p.run h s).2 = s)
    (ht : (p.run h t).2 = t) (hmono : (p.run h s).1 = .ok true → (p.run h t).1 = .ok true)
    (hraise : ∀ b s', (f false).run h s ≠ (.ok b, s')) (hf : Carries h s t (f true)) :
    Carries h s t (p >>= f) := by
  intro b s' hrun
  obtain ⟨passed, u, hcheck, hrest⟩ := run_bind_ok.mp hrun
  obtain rfl : u = s := by rw [← hs, hcheck]
  cases passed
  · exact absurd hrest (hraise b s')
  · obtain ⟨hs', hrest'⟩ := hf b s' hrest
    have hpassed : p.run h t = (.ok true, t) := Prod.ext (hmono (by rw [hcheck])) ht
    exact ⟨hs', (run_bind_of_eq hpassed).trans hrest'⟩

theorem forM {f : α → Prog Ret ε Unit} (hf : ∀ a, Carries h s t (f a)) (l : List α) :
    Carries h s t (l.forM f) := by
  induction l with
  | nil => exact pure ()
  | cons a l ih => exact (hf a).bind fun _ => ih

theorem anyM {f : α → Prog Ret ε Bool} (hf : ∀ a, Carries h s t (f a)) (l : List α) :
    Carries h s t (l.anyM f) := by
  induction l with
  | nil => exact pure false
  | cons a l ih =>
    rw [List.anyM]
    refine (hf a).bind fun b => ?_
    cases b
    · exact ih
    · exact pure true

end Carries

end Prog
