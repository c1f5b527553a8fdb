import Mathlib.Logic.Basic
import Mathlib.Control.Basic

/-!
# Programs over a set of operations

A program written against an interface does not know which store answers it. A
`Prog` is such a program: it returns, raises an exception, or performs one
operation of the interface and continues with the answer – which may itself be an
exception the operation raised.

The same program then has two meanings.

* `Prog.run` executes it against one store, every operation answered by a
  `Handler`. An exception stops the program but not its past: the state it left
  behind is part of the result, as in a language without transactions.
* One operation at a time is what an interleaving schedules, and it is read off
  the constructor `Prog.step` by `Interleaving`.

The rules below are the ones a proof about a program needs: `Prog.run_bind_ok` and
`Prog.run_bind_error` take a run apart, `Prog.Only` says which operations a program
performs, and `Prog.Only.run_rel` carries a relation every one of them preserves
through the whole run. `Prog.Yields` says what every result of a program satisfies.
`Prog.RaisesOnly` bounds the exceptions a program raises, and
`Prog.Raises` says that it raises one of some kind: `Prog.raises_bind_iff` then finds out
where.
-/

/-- **A program over operations `Op`**, answered in `Ret`, raising exceptions in
`ε` and returning in `α`. -/
inductive Prog {Op : Type} (Ret : Op → Type) (ε α : Type) : Type
  /-- Return. -/
  | ret (a : α) : Prog Ret ε α
  /-- Raise an exception. -/
  | raise (e : ε) : Prog Ret ε α
  /-- Perform one operation and continue with its answer. -/
  | step (o : Op) (k : Except ε (Ret o) → Prog Ret ε α) : Prog Ret ε α

/-- A store that answers every operation, possibly with an exception, and moves to
its next state. -/
abbrev Handler {Op : Type} (Ret : Op → Type) (ε σ : Type) : Type :=
  (o : Op) → σ → Except ε (Ret o) × σ

namespace Prog

variable {Op : Type} {Ret : Op → Type} {ε σ α β : Type}

/-! ### Sequencing -/

/-- Run one program, then the program its result selects. -/
protected def bind : Prog Ret ε α → (α → Prog Ret ε β) → Prog Ret ε β
  | .ret a, f => f a
  | .raise e, _ => .raise e
  | .step o k, f => .step o fun r => (k r).bind f

instance : Monad (Prog Ret ε) where
  pure := .ret
  bind := Prog.bind

@[simp] theorem bind_ret (p : Prog Ret ε α) : p.bind .ret = p := by
  induction p with
  | ret a => rfl
  | raise e => rfl
  | step o k ih => exact congrArg (Prog.step o) (funext ih)

theorem bind_assoc {γ : Type} (p : Prog Ret ε α) (f : α → Prog Ret ε β) (g : β → Prog Ret ε γ) :
    (p.bind f).bind g = p.bind fun a => (f a).bind g := by
  induction p with
  | ret a => rfl
  | raise e => rfl
  | step o k ih => exact congrArg (Prog.step o) (funext ih)

instance : LawfulMonad (Prog Ret ε) :=
  LawfulMonad.mk' (Prog Ret ε) bind_ret (fun _ _ => rfl) bind_assoc

/-- Perform one operation; an exception it raises is raised on. -/
def call (o : Op) : Prog Ret ε (Ret o) :=
  .step o fun r => match r with
    | .ok a => .ret a
    | .error e => .raise e

/-- A computation that performs no operation. -/
def ofExcept : Except ε α → Prog Ret ε α
  | .ok a => .ret a
  | .error e => .raise e

/-- Raise an exception under a condition, and go on otherwise. -/
def raiseWhen (c : Prop) [Decidable c] (e : ε) : Prog Ret ε Unit :=
  if c then .raise e else .ret ()

/-- Replace the exception a program raises. -/
def mapError (f : ε → ε) : Prog Ret ε α → Prog Ret ε α
  | .ret a => .ret a
  | .raise e => .raise (f e)
  | .step o k => .step o fun r => (k r).mapError f

/-- `try`: the outcome of a program, an exception included, as a result. -/
def attempt : Prog Ret ε α → Prog Ret ε (Except ε α)
  | .ret a => .ret (.ok a)
  | .raise e => .ret (.error e)
  | .step o k => .step o fun r => (k r).attempt

/-! ### Running against one store -/

/-- **The run of a program against a store**: its outcome, and the state it leaves
behind, whether or not it raised. -/
def run (h : Handler Ret ε σ) : Prog Ret ε α → σ → Except ε α × σ
  | .ret a, s => (.ok a, s)
  | .raise e, s => (.error e, s)
  | .step o k, s => (k (h o s).1).run h (h o s).2

section Run

variable {h : Handler Ret ε σ} {s t u : σ} {a : α} {b : β} {e : ε}

@[simp] theorem run_pure : (pure a : Prog Ret ε α).run h s = (.ok a, s) := rfl

@[simp] theorem run_ret : (ret a : Prog Ret ε α).run h s = (.ok a, s) := rfl

@[simp] theorem run_raise : (raise e : Prog Ret ε α).run h s = (.error e, s) := rfl

@[simp] theorem run_call {o : Op} : (call o : Prog Ret ε (Ret o)).run h s = h o s := by
  change ((fun r => match r with | .ok a => Prog.ret a | .error e => Prog.raise e)
    (h o s).1 : Prog Ret ε (Ret o)).run h (h o s).2 = h o s
  rcases h o s with ⟨_ | _, _⟩ <;> rfl

@[simp] theorem run_ofExcept (x : Except ε α) : (ofExcept x : Prog Ret ε α).run h s = (x, s) := by
  cases x <;> rfl

@[simp] theorem run_raiseWhen {c : Prop} [Decidable c] :
    (raiseWhen c e : Prog Ret ε Unit).run h s = (if c then .error e else .ok (), s) := by
  by_cases hc : c <;> simp [raiseWhen, hc]

/-- **The run of a sequence.** -/
theorem run_bind (p : Prog Ret ε α) (f : α → Prog Ret ε β) :
    (p >>= f).run h s = match p.run h s with
      | (.ok a, t) => (f a).run h t
      | (.error e, t) => (.error e, t) := by
  induction p generalizing s with
  | ret a => rfl
  | raise e => rfl
  | step o k ih => exact ih (h o s).1

theorem run_mapError (f : ε → ε) (p : Prog Ret ε α) :
    (p.mapError f).run h s = ((p.run h s).1.mapError f, (p.run h s).2) := by
  induction p generalizing s with
  | ret a => rfl
  | raise e => rfl
  | step o k ih => exact ih (h o s).1

theorem run_attempt (p : Prog Ret ε α) :
    p.attempt.run h s = (.ok (p.run h s).1, (p.run h s).2) := by
  induction p generalizing s with
  | ret a => rfl
  | raise e => rfl
  | step o k ih => exact ih (h o s).1

/-- **A sequence returns** when its first part returns and its second part returns
from there. -/
theorem run_bind_ok {p : Prog Ret ε α} {f : α → Prog Ret ε β} :
    (p >>= f).run h s = (.ok b, u) ↔
      ∃ a t, p.run h s = (.ok a, t) ∧ (f a).run h t = (.ok b, u) := by
  rw [run_bind]
  rcases hp : p.run h s with ⟨_ | a, t⟩
  · simp
  · constructor
    · exact fun hf => ⟨a, t, rfl, hf⟩
    · rintro ⟨a', t', heq, hf⟩
      cases heq
      exact hf

/-- **A sequence raises** when its first part does, or when its second part raises
after the first has returned. -/
theorem run_bind_error {p : Prog Ret ε α} {f : α → Prog Ret ε β} :
    (p >>= f).run h s = (.error e, u) ↔
      p.run h s = (.error e, u) ∨
        ∃ a t, p.run h s = (.ok a, t) ∧ (f a).run h t = (.error e, u) := by
  rw [run_bind]
  rcases hp : p.run h s with ⟨_ | a, t⟩
  · simp
  · constructor
    · exact fun hf => Or.inr ⟨a, t, rfl, hf⟩
    · rintro (heq | ⟨a', t', heq, hf⟩)
      · cases heq
      · cases heq
        exact hf

theorem run_raiseWhen_ok {c : Prop} [Decidable c] {x : Unit} :
    (raiseWhen c e : Prog Ret ε Unit).run h s = (.ok x, t) ↔ ¬c ∧ t = s := by
  by_cases hc : c <;> simp [hc, eq_comm]

theorem run_ofExcept_ok {x : Except ε α} :
    (ofExcept x : Prog Ret ε α).run h s = (.ok a, t) ↔ x = .ok a ∧ t = s := by
  rw [run_ofExcept, Prod.mk.injEq, eq_comm (a := s)]

/-- A sequence, once its first part has returned. -/
theorem run_bind_of_eq {p : Prog Ret ε α} {f : α → Prog Ret ε β} (hp : p.run h s = (.ok a, t)) :
    (p >>= f).run h s = (f a).run h t := by
  rw [run_bind, hp]

/-- **A program that starts with a check returns** when the check passes and the rest
returns. -/
theorem run_raiseWhen_bind_ok {c : Prop} [Decidable c] {f : Unit → Prog Ret ε β} :
    (raiseWhen c e >>= f).run h s = (.ok b, u) ↔ ¬c ∧ (f ()).run h s = (.ok b, u) := by
  rw [run_bind, run_raiseWhen]
  by_cases hc : c
  · simp [hc]
  · simp [hc]

/-- A program whose exceptions are translated returns when it does. -/
theorem run_mapError_ok {p : Prog Ret ε α} {f : ε → ε} :
    (p.mapError f).run h s = (.ok a, t) ↔ p.run h s = (.ok a, t) := by
  rw [run_mapError]
  rcases p.run h s with ⟨e | b, u⟩
  · simp [Except.mapError]
  · simp [Except.mapError]

/-- A program that starts with a computation returns when the computation does, and
the rest does. -/
theorem run_ofExcept_bind_ok {x : Except ε α} {f : α → Prog Ret ε β} :
    (ofExcept x >>= f).run h s = (.ok b, u) ↔ ∃ a, x = .ok a ∧ (f a).run h s = (.ok b, u) := by
  rw [run_bind, run_ofExcept]
  rcases x with e | a
  · simp
  · simp

/-- A loop of readings, each answered in this very state. -/
theorem run_mapM_of_eq {f : α → Prog Ret ε β} {g : α → β}
    (hf : ∀ a, (f a).run h s = (.ok (g a), s)) (l : List α) :
    (l.mapM f).run h s = (.ok (l.map g), s) := by
  induction l with
  | nil => rfl
  | cons a l ih =>
    rw [List.mapM_cons, run_bind, hf]
    dsimp only
    rw [run_bind, ih]
    rfl

/-- A search by readings, each answered in this very state. -/
theorem run_anyM_of_eq {f : α → Prog Ret ε Bool} {g : α → Bool}
    (hf : ∀ a, (f a).run h s = (.ok (g a), s)) (l : List α) :
    (l.anyM f).run h s = (.ok (l.any g), s) := by
  induction l with
  | nil => rfl
  | cons a l ih =>
    rw [List.anyM, run_bind, hf]
    cases hg : g a
    · simpa [hg] using ih
    · simp [hg]

/-- A loop that gathers readings, each answered in this very state. -/
theorem run_foldlM_of_eq {f : β → α → Prog Ret ε β} {g : β → α → β}
    (hf : ∀ b a, (f b a).run h s = (.ok (g b a), s)) (l : List α) (b : β) :
    (l.foldlM f b).run h s = (.ok (l.foldl g b), s) := by
  induction l generalizing b with
  | nil => rfl
  | cons a l ih => rw [List.foldlM_cons, run_bind_of_eq (hf b a), ih, List.foldl_cons]

/-- A loop of checks, each of which passes in this very state. -/
theorem run_forM_ok {f : α → Prog Ret ε Unit} {p : α → Prop}
    (hf : ∀ a (x : Unit) t, (f a).run h s = (.ok x, t) → t = s ∧ p a) {x : Unit} {l : List α}
    (hrun : (l.forM f).run h s = (.ok x, t)) : t = s ∧ ∀ a ∈ l, p a := by
  induction l with
  | nil =>
    cases hrun
    exact ⟨rfl, fun a ha => absurd ha List.not_mem_nil⟩
  | cons a l ih =>
    obtain ⟨y, u, hfirst, hrest⟩ := run_bind_ok.mp hrun
    obtain ⟨hu, ha⟩ := hf a y u hfirst
    rw [hu] at hrest
    obtain ⟨ht, hl⟩ := ih hrest
    exact ⟨ht, List.forall_mem_cons.mpr ⟨ha, hl⟩⟩

end Run

/-! ### The operations a program performs -/

/-- **Every operation a program can perform satisfies `φ`**, whatever answers it
gets. -/
def Only (φ : Op → Prop) : Prog Ret ε α → Prop
  | .ret _ => True
  | .raise _ => True
  | .step o k => φ o ∧ ∀ r, (k r).Only φ

namespace Only

variable {φ ψ : Op → Prop}

@[simp] theorem pure (a : α) : (Pure.pure a : Prog Ret ε α).Only φ := trivial

@[simp] theorem ret (a : α) : (Prog.ret a : Prog Ret ε α).Only φ := trivial

@[simp] theorem raise (e : ε) : (Prog.raise e : Prog Ret ε α).Only φ := trivial

theorem call {o : Op} (h : φ o) : (Prog.call o : Prog Ret ε (Ret o)).Only φ := by
  refine ⟨h, fun r => ?_⟩
  cases r <;> trivial

@[simp] theorem ofExcept (x : Except ε α) : (Prog.ofExcept x : Prog Ret ε α).Only φ := by
  cases x <;> trivial

@[simp] theorem raiseWhen (c : Prop) [Decidable c] (e : ε) :
    (Prog.raiseWhen c e : Prog Ret ε Unit).Only φ := by
  by_cases hc : c <;> simp [Prog.raiseWhen, hc]

theorem bind {p : Prog Ret ε α} {f : α → Prog Ret ε β} (hp : p.Only φ)
    (hf : ∀ a, (f a).Only φ) : (p >>= f).Only φ := by
  induction p with
  | ret a => exact hf a
  | raise e => trivial
  | step o k ih => exact ⟨hp.1, fun r => ih r (hp.2 r)⟩

/-- What follows a computation may use that it has succeeded. -/
theorem ofExcept_bind {x : Except ε α} {f : α → Prog Ret ε β} (hf : ∀ a, x = .ok a → (f a).Only φ) :
    (Prog.ofExcept x >>= f).Only φ := by
  rcases x with e | a
  · trivial
  · exact hf a rfl

theorem of_forall (h : ∀ o, φ o) (p : Prog Ret ε α) : p.Only φ := by
  induction p with
  | ret a => trivial
  | raise e => trivial
  | step o k ih => exact ⟨h o, ih⟩

theorem mono {p : Prog Ret ε α} (hp : p.Only φ) (h : ∀ o, φ o → ψ o) : p.Only ψ := by
  induction p with
  | ret a => trivial
  | raise e => trivial
  | step o k ih => exact ⟨h o hp.1, fun r => ih r (hp.2 r)⟩

theorem mapError {p : Prog Ret ε α} (f : ε → ε) (hp : p.Only φ) : (p.mapError f).Only φ := by
  induction p with
  | ret a => trivial
  | raise e => trivial
  | step o k ih => exact ⟨hp.1, fun r => ih r (hp.2 r)⟩

theorem attempt {p : Prog Ret ε α} (hp : p.Only φ) : p.attempt.Only φ := by
  induction p with
  | ret a => trivial
  | raise e => trivial
  | step o k ih => exact ⟨hp.1, fun r => ih r (hp.2 r)⟩

theorem ite {c : Prop} [Decidable c] {p q : Prog Ret ε α} (hp : p.Only φ) (hq : q.Only φ) :
    (if c then p else q).Only φ := by
  split
  · exact hp
  · exact hq

theorem mapM {f : α → Prog Ret ε β} (hf : ∀ a, (f a).Only φ) (l : List α) :
    (l.mapM f).Only φ := by
  induction l with
  | nil => rw [List.mapM_nil]; trivial
  | cons a l ih =>
    rw [List.mapM_cons]
    exact (hf a).bind fun _ => ih.bind fun _ => trivial

theorem anyM {f : α → Prog Ret ε Bool} (hf : ∀ a, (f a).Only φ) (l : List α) :
    (l.anyM f).Only φ := by
  induction l with
  | nil => trivial
  | cons a l ih =>
    rw [List.anyM]
    refine (hf a).bind fun b => ?_
    cases b
    · exact ih
    · trivial

theorem forM {f : α → Prog Ret ε Unit} (hf : ∀ a, (f a).Only φ) (l : List α) :
    (l.forM f).Only φ := by
  induction l with
  | nil => trivial
  | cons a l ih => exact (hf a).bind fun _ => ih

theorem foldlM {f : β → α → Prog Ret ε β} {l : List α} (hf : ∀ b, ∀ a ∈ l, (f b a).Only φ)
    (b : β) : (l.foldlM f b).Only φ := by
  induction l generalizing b with
  | nil => trivial
  | cons a l ih =>
    rw [List.foldlM_cons]
    refine (hf b a List.mem_cons_self).bind fun b' => ih (fun b'' a' ha' => ?_) b'
    exact hf b'' a' (List.mem_cons_of_mem _ ha')

/-- **A relation every operation preserves is preserved by the run**, exceptions
included. -/
theorem run_rel {h : Handler Ret ε σ} {R : σ → σ → Prop} (hrefl : ∀ s, R s s)
    (htrans : ∀ {s t u}, R s t → R t u → R s u) (hop : ∀ o, φ o → ∀ s, R s (h o s).2)
    {p : Prog Ret ε α} (hp : p.Only φ) (s : σ) : R s (p.run h s).2 := by
  induction p generalizing s with
  | ret a => exact hrefl s
  | raise e => exact hrefl s
  | step o k ih => exact htrans (hop o hp.1 s) (ih _ (hp.2 _) _)

/-- **A program of reading operations leaves the store alone.** -/
theorem run_state {h : Handler Ret ε σ} (hop : ∀ o, φ o → ∀ s, (h o s).2 = s)
    {p : Prog Ret ε α} (hp : p.Only φ) (s : σ) : (p.run h s).2 = s :=
  (hp.run_rel (R := fun s t => t = s) (fun _ => rfl) (fun h₁ h₂ => h₂.trans h₁) hop s)

/-- **Two stores that give the same answers run a program alike**, when they answer its
operations without moving. -/
theorem run_congr {τ : Type} {h : Handler Ret ε σ} {h' : Handler Ret ε τ} {s : σ} {s' : τ}
    (hop : ∀ o, φ o → (h o s).2 = s ∧ (h' o s').2 = s' ∧ (h o s).1 = (h' o s').1)
    {p : Prog Ret ε α} (hp : p.Only φ) : (p.run h s).1 = (p.run h' s').1 := by
  induction p with
  | ret a => rfl
  | raise e => rfl
  | step o k ih =>
    obtain ⟨hs, hs', hanswer⟩ := hop o hp.1
    change ((k (h o s).1).run h (h o s).2).1 = ((k (h' o s').1).run h' (h' o s').2).1
    rw [hs, hs', hanswer]
    exact ih _ (hp.2 _)

/-- The outcome of a program of reading operations, with the state it did not
change. -/
theorem run_eq {h : Handler Ret ε σ} (hop : ∀ o, φ o → ∀ s, (h o s).2 = s)
    {p : Prog Ret ε α} (hp : p.Only φ) {s t : σ} {r : Except ε α} (hrun : p.run h s = (r, t)) :
    t = s := by
  have := hp.run_state hop s
  rwa [hrun] at this

end Only

/-! ### What results satisfy -/

/-- **What every result of a program satisfies**, however its operations are answered. -/
def Yields (Q : α → Prop) : Prog Ret ε α → Prop
  | .ret a => Q a
  | .raise _ => True
  | .step _ k => ∀ r, Yields Q (k r)

namespace Yields

variable {Q : α → Prop} {R : β → Prop}

theorem always (p : Prog Ret ε α) : p.Yields fun _ => True := by
  induction p with
  | ret a => trivial
  | raise e => trivial
  | step o k ih => exact ih

theorem ofExcept {x : Except ε α} (h : ∀ a, x = .ok a → Q a) :
    (Prog.ofExcept x : Prog Ret ε α).Yields Q := by
  rcases x with e | a
  · trivial
  · exact h a rfl

theorem raiseWhen {c : Prop} [Decidable c] {e : ε} {Q : Unit → Prop} (h : ¬c → Q ()) :
    (Prog.raiseWhen c e : Prog Ret ε Unit).Yields Q := by
  rw [Prog.raiseWhen]
  split
  · trivial
  · rename_i hc
    exact h hc

theorem bind {p : Prog Ret ε α} {f : α → Prog Ret ε β} (hp : p.Yields Q)
    (hf : ∀ a, Q a → (f a).Yields R) : (p >>= f).Yields R := by
  induction p with
  | ret a => exact hf a hp
  | raise e => trivial
  | step o k ih => exact fun r => ih r (hp r)

/-- A first part whose result does not matter. -/
theorem bind_always {p : Prog Ret ε α} {f : α → Prog Ret ε β} (hf : ∀ a, (f a).Yields R) :
    (p >>= f).Yields R :=
  (always p).bind fun a _ => hf a

end Yields

/-! ### The exceptions a program raises -/

/-- **Every exception a program raises satisfies `φ`**, whatever the state. -/
def RaisesOnly (h : Handler Ret ε σ) (φ : ε → Prop) (p : Prog Ret ε α) : Prop :=
  ∀ s e t, p.run h s = (.error e, t) → φ e

/-- **A program raises an exception that satisfies `φ`**, from this state. -/
def Raises (h : Handler Ret ε σ) (φ : ε → Prop) (p : Prog Ret ε α) (s : σ) : Prop :=
  ∃ e t, p.run h s = (.error e, t) ∧ φ e

namespace RaisesOnly

variable {h : Handler Ret ε σ} {φ ψ : ε → Prop}

theorem pure (a : α) : RaisesOnly h φ (Pure.pure a : Prog Ret ε α) := by
  intro s e t hrun
  cases hrun

theorem raise {e : ε} (he : φ e) : RaisesOnly h φ (Prog.raise e : Prog Ret ε α) := by
  intro s e' t hrun
  cases hrun
  exact he

theorem ofExcept {x : Except ε α} (hx : ∀ e, x = .error e → φ e) :
    RaisesOnly h φ (Prog.ofExcept x : Prog Ret ε α) := by
  intro s e t hrun
  rw [run_ofExcept] at hrun
  exact hx e (Prod.mk.inj hrun).1

theorem raiseWhen (c : Prop) [Decidable c] {e : ε} (he : φ e) :
    RaisesOnly h φ (Prog.raiseWhen c e : Prog Ret ε Unit) := by
  intro s e' t hrun
  rw [run_raiseWhen] at hrun
  split at hrun
  · cases hrun
    exact he
  · cases hrun

theorem call {o : Op} (ho : ∀ s e t, h o s = (.error e, t) → φ e) :
    RaisesOnly h φ (Prog.call o : Prog Ret ε (Ret o)) := by
  intro s e t hrun
  rw [run_call] at hrun
  exact ho s e t hrun

theorem bind {p : Prog Ret ε α} {f : α → Prog Ret ε β} (hp : RaisesOnly h φ p)
    (hf : ∀ a, RaisesOnly h φ (f a)) : RaisesOnly h φ (p >>= f) := by
  intro s e u hrun
  rcases run_bind_error.mp hrun with herr | ⟨a, t, -, herr⟩
  · exact hp s e u herr
  · exact hf a t e u herr

theorem ite {c : Prop} [Decidable c] {p q : Prog Ret ε α} (hp : RaisesOnly h φ p)
    (hq : RaisesOnly h φ q) : RaisesOnly h φ (if c then p else q) := by
  split
  · exact hp
  · exact hq

theorem mapError (p : Prog Ret ε α) {f : ε → ε} (hf : ∀ e, φ (f e)) :
    RaisesOnly h φ (p.mapError f) := by
  intro s e t hrun
  rw [run_mapError] at hrun
  rcases hr : p.run h s with ⟨e' | a, u⟩
  · rw [hr] at hrun
    cases hrun
    exact hf e'
  · rw [hr] at hrun
    cases hrun

theorem mapM {f : α → Prog Ret ε β} (hf : ∀ a, RaisesOnly h φ (f a)) (l : List α) :
    RaisesOnly h φ (l.mapM f) := by
  induction l with
  | nil => exact pure _
  | cons a l ih =>
    rw [List.mapM_cons]
    exact (hf a).bind fun _ => ih.bind fun _ => pure _

theorem anyM {f : α → Prog Ret ε Bool} (hf : ∀ a, RaisesOnly h φ (f a)) (l : List α) :
    RaisesOnly h φ (l.anyM f) := by
  induction l with
  | nil => exact pure _
  | cons a l ih =>
    rw [List.anyM]
    refine (hf a).bind fun b => ?_
    cases b
    · exact ih
    · exact pure _

theorem forM {f : α → Prog Ret ε Unit} (hf : ∀ a, RaisesOnly h φ (f a)) (l : List α) :
    RaisesOnly h φ (l.forM f) := by
  induction l with
  | nil => exact pure _
  | cons a l ih => exact (hf a).bind fun _ => ih

/-- A program that raises other exceptions only does not raise these. -/
theorem not_raises {p : Prog Ret ε α} (hp : RaisesOnly h φ p) (hφ : ∀ e, φ e → ¬ψ e) (s : σ) :
    ¬p.Raises h ψ s := by
  rintro ⟨e, t, hrun, he⟩
  exact hφ e (hp s e t hrun) he

end RaisesOnly

section Raises

variable {h : Handler Ret ε σ} {φ : ε → Prop} {s t : σ} {a : α} {e : ε}

/-- **A sequence raises in one of its parts.** -/
theorem raises_bind_iff {p : Prog Ret ε α} {f : α → Prog Ret ε β} :
    (p >>= f).Raises h φ s ↔
      p.Raises h φ s ∨ ∃ a t, p.run h s = (.ok a, t) ∧ (f a).Raises h φ t := by
  constructor
  · rintro ⟨e, u, hrun, he⟩
    rcases run_bind_error.mp hrun with herr | ⟨a, t, hok, herr⟩
    · exact Or.inl ⟨e, u, herr, he⟩
    · exact Or.inr ⟨a, t, hok, e, u, herr, he⟩
  · rintro (⟨e, u, herr, he⟩ | ⟨a, t, hok, e, u, herr, he⟩)
    · exact ⟨e, u, run_bind_error.mpr (Or.inl herr), he⟩
    · exact ⟨e, u, run_bind_error.mpr (Or.inr ⟨a, t, hok, herr⟩), he⟩

/-- A sequence, once its first part has returned. -/
theorem raises_bind_of_eq {p : Prog Ret ε α} {f : α → Prog Ret ε β}
    (hp : p.run h s = (.ok a, t)) : (p >>= f).Raises h φ s ↔ (f a).Raises h φ t := by
  rw [Raises, run_bind_of_eq hp, Raises]

/-- A sequence that starts with a computation. -/
theorem raises_ofExcept_bind_iff {x : Except ε α} {f : α → Prog Ret ε β} :
    (ofExcept x >>= f).Raises h φ s ↔
      (∃ e, x = .error e ∧ φ e) ∨ ∃ a, x = .ok a ∧ (f a).Raises h φ s := by
  rcases x with e | a
  · simp [Raises, run_bind]
  · simp [Raises, run_bind]

/-- A sequence that starts with a check, which raises something else. -/
theorem raises_raiseWhen_bind_iff {c : Prop} [Decidable c] {f : Unit → Prog Ret ε β}
    (he : ¬φ e) : (raiseWhen c e >>= f).Raises h φ s ↔ ¬c ∧ (f ()).Raises h φ s := by
  by_cases hc : c
  · simp [Raises, run_bind, hc, he]
  · simp [Raises, run_bind, hc]

@[simp] theorem not_raises_pure : ¬(pure a : Prog Ret ε α).Raises h φ s := by
  rintro ⟨e, t, hrun, -⟩
  cases hrun

end Raises

/-! ### What a program that raises leaves behind -/

/-- **A program that raises has kept `R`.** A program that returns may have done
anything. -/
def RaisesKeep (h : Handler Ret ε σ) (R : σ → σ → Prop) (p : Prog Ret ε α) : Prop :=
  ∀ s e t, p.run h s = (.error e, t) → R s t

namespace RaisesKeep

variable {h : Handler Ret ε σ} {R : σ → σ → Prop} {φ : Op → Prop}

/-- **The rule of sequencing**: the first part only performs operations that keep `R`,
and the second part keeps it whenever it raises. -/
theorem bind (hrefl : ∀ s, R s s) (htrans : ∀ {s t u}, R s t → R t u → R s u)
    (hop : ∀ o, φ o → ∀ s, R s (h o s).2) {p : Prog Ret ε α} {f : α → Prog Ret ε β}
    (hp : p.Only φ) (hf : ∀ a, RaisesKeep h R (f a)) : RaisesKeep h R (p >>= f) := by
  intro s e u hrun
  have hfirst := hp.run_rel hrefl htrans hop s
  rcases run_bind_error.mp hrun with herr | ⟨a, t, hok, herr⟩
  · rwa [herr] at hfirst
  · rw [hok] at hfirst
    exact htrans hfirst (hf a t e u herr)

theorem mapError {p : Prog Ret ε α} (hp : RaisesKeep h R p) (f : ε → ε) :
    RaisesKeep h R (p.mapError f) := by
  intro s e t hrun
  rw [run_mapError] at hrun
  rcases hr : p.run h s with ⟨e' | a, u⟩
  · rw [hr] at hrun
    cases hrun
    exact hp s e' _ hr
  · rw [hr] at hrun
    cases hrun

end RaisesKeep

end Prog
