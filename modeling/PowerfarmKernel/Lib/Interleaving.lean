import Mathlib.Data.List.Forall2
import Mathlib.Logic.Function.Basic
import PowerfarmKernel.Lib.Prog
import PowerfarmKernel.Lib.Runs

/-!
# Interleavings of clients

Several clients, each a program over the operations of one store, share that store. A
schedule is the list of clients that take the next step; a step performs one operation,
atomically, and nothing says that a client ever takes another one: a client that is not
scheduled any more has crashed. `Interleaving.exec` runs a schedule.

What one client does must be argued without knowing what the others do in between. The
argument is a `Interleaving.Discipline`: an invariant of the store, a relation the store
stays within while others act (`rely`), what is assumed of the steps that are taken
(`allowed`), and what every step is to satisfy (`good`). `Interleaving.Safe` says that a
program satisfies it from a given state of the store on, whatever happens between its
steps, and the rules below prove it along the program. `Interleaving.exec_safe` and
`Interleaving.exec_good` are the conclusion for every schedule.
-/

namespace Interleaving

open Runs

variable {Op : Type} {Ret : Op → Type} {ε σ ι α β : Type}

/-! ### Schedules -/

/-- **A store and its clients**: the state of the store, and what is left of the program
of each client. -/
structure Config {Op : Type} (Ret : Op → Type) (ε σ ι α : Type) where
  state : σ
  rest : ι → Prog Ret ε α

/-- The operation a program performs next. -/
def head? : Prog Ret ε α → Option Op
  | .step o _ => some o
  | _ => none

section Exec

variable [DecidableEq ι] (h : Handler Ret ε σ)

/-- One step of one client; a client that has returned or raised does nothing. -/
def next (c : Config Ret ε σ ι α) (i : ι) : Config Ret ε σ ι α :=
  match c.rest i with
  | .step o k => ⟨(h o c.state).2, Function.update c.rest i (k (h o c.state).1)⟩
  | _ => c

/-- The configuration after a schedule. -/
abbrev exec (c : Config Ret ε σ ι α) (schedule : List ι) : Config Ret ε σ ι α :=
  Runs.exec (next h) c schedule

/-- The client performs this operation when it is scheduled next. -/
def Performs (c : Config Ret ε σ ι α) (i : ι) (o : Op) : Prop := head? (c.rest i) = some o

variable {h} {c : Config Ret ε σ ι α} {i : ι}

/-- **A step performs one operation, or nothing.** -/
theorem next_cases (h : Handler Ret ε σ) (c : Config Ret ε σ ι α) (i : ι) :
    next h c i = c ∨ ∃ o k, c.rest i = .step o k ∧
      next h c i = ⟨(h o c.state).2, Function.update c.rest i (k (h o c.state).1)⟩ := by
  rw [next]
  rcases hrest : c.rest i with a | e | ⟨o, k⟩
  · exact Or.inl rfl
  · exact Or.inl rfl
  · exact Or.inr ⟨o, k, rfl, rfl⟩

/-- A property of the store that every operation keeps holds after every schedule. -/
theorem exec_state_inv {Inv : σ → Prop} (hop : ∀ s o, Inv s → Inv (h o s).2) (hinit : Inv c.state)
    (schedule : List ι) : Inv (exec h c schedule).state := by
  have hnext : ∀ (c : Config Ret ε σ ι α) i, Inv c.state → Inv (next h c i).state := by
    intro c i hc
    rcases next_cases h c i with heq | ⟨o, k, -, heq⟩
    · rw [heq]
      exact hc
    · rw [heq]
      exact hop c.state o hc
  exact exec_inv hnext hinit schedule

end Exec

/-! ### Disciplines -/

/-- **How clients treat a store they share.** -/
structure Discipline (h : Handler Ret ε σ) (ι : Type) where
  /-- What holds of the store at all times. -/
  inv : σ → Prop
  /-- What the others may do to it between two steps of a client. -/
  rely : σ → σ → Prop
  /-- What is assumed of the steps that are taken. -/
  allowed : ι → σ → Op → Prop
  /-- What every step is to satisfy. -/
  good : ι → σ → Op → Prop
  refl : ∀ s, rely s s
  trans : ∀ {s t u}, rely s t → rely t u → rely s u
  /-- A good step keeps the invariant, and is one the others may rely on. -/
  keeps : ∀ i s o, inv s → allowed i s o → good i s o → inv (h o s).2 ∧ rely s (h o s).2

section Safe

variable {h : Handler Ret ε σ} (D : Discipline h ι) (i : ι)

/-- **A program keeps a discipline from a state on**, whatever the others do between its
steps, and `Q` holds of what it returns, then and later. -/
def Safe (Q : α → σ → Prop) : Prog Ret ε α → σ → Prop
  | .ret a, s => ∀ t, D.inv t → D.rely s t → Q a t
  | .raise _, _ => True
  | .step o k, s => ∀ t, D.inv t → D.rely s t → D.allowed i t o →
      D.good i t o ∧ Safe Q (k (h o t).1) (h o t).2

namespace Safe

variable {D i} {Q Q' : α → σ → Prop} {p : Prog Ret ε α} {s t : σ}

theorem later (hp : Safe D i Q p s) (hst : D.rely s t) : Safe D i Q p t := by
  cases p with
  | ret a => exact fun u hu htu => hp u hu (D.trans hst htu)
  | raise e => trivial
  | step o k => exact fun u hu htu => hp u hu (D.trans hst htu)

/-- It is enough to look at the states the others may bring about. -/
theorem of_later (hp : ∀ t, D.inv t → D.rely s t → Safe D i Q p t) : Safe D i Q p s := by
  cases p with
  | ret a => exact fun t ht hst => hp t ht hst t ht (D.refl t)
  | raise e => trivial
  | step o k => exact fun t ht hst => hp t ht hst t ht (D.refl t)

theorem imp (hp : Safe D i Q p s) (hQ : ∀ a t, D.inv t → D.rely s t → Q a t → Q' a t) :
    Safe D i Q' p s := by
  induction p generalizing s with
  | ret a => exact fun t ht hst => hQ a t ht hst (hp t ht hst)
  | raise e => trivial
  | step o k ih =>
    intro t ht hst hallowed
    obtain ⟨hgood, hrest⟩ := hp t ht hst hallowed
    refine ⟨hgood, ih _ hrest fun a u hu htu hq => hQ a u hu ?_ hq⟩
    exact D.trans hst (D.trans (D.keeps i t o ht hallowed hgood).2 htu)

/-- **The rule of sequencing.** -/
theorem bind {f : α → Prog Ret ε β} {Q : β → σ → Prop}
    (hp : Safe D i (fun a t => Safe D i Q (f a) t) p s) : Safe D i Q (p >>= f) s := by
  induction p generalizing s with
  | ret a => exact of_later hp
  | raise e => trivial
  | step o k ih =>
    intro t ht hst hallowed
    obtain ⟨hgood, hrest⟩ := hp t ht hst hallowed
    exact ⟨hgood, ih _ hrest⟩

/-- **The rule of one operation.** -/
theorem call {o : Op} {Q : Ret o → σ → Prop}
    (ho : ∀ t, D.inv t → D.rely s t → D.allowed i t o → D.good i t o ∧
      ∀ a, (h o t).1 = .ok a → ∀ u, D.inv u → D.rely (h o t).2 u → Q a u) :
    Safe D i Q (Prog.call o) s := by
  intro t ht hst hallowed
  obtain ⟨hgood, hanswer⟩ := ho t ht hst hallowed
  refine ⟨hgood, ?_⟩
  rcases hr : (h o t).1 with e | a
  · trivial
  · exact hanswer a hr

theorem ofExcept {x : Except ε α} (hx : ∀ a, x = .ok a → ∀ t, D.inv t → D.rely s t → Q a t) :
    Safe D i Q (Prog.ofExcept x) s := by
  rcases x with e | a
  · trivial
  · exact hx a rfl

theorem raiseWhen {c : Prop} [Decidable c] {e : ε} {Q : Unit → σ → Prop}
    (hc : ¬c → ∀ t, D.inv t → D.rely s t → Q () t) : Safe D i Q (Prog.raiseWhen c e) s := by
  by_cases h : c
  · rw [Prog.raiseWhen, if_pos h]
    trivial
  · rw [Prog.raiseWhen, if_neg h]
    exact hc h

theorem pure {a : α} (ha : ∀ t, D.inv t → D.rely s t → Q a t) :
    Safe D i Q (Pure.pure a : Prog Ret ε α) s := ha

theorem mapError (hp : Safe D i Q p s) (f : ε → ε) : Safe D i Q (p.mapError f) s := by
  induction p generalizing s with
  | ret a => exact hp
  | raise e => trivial
  | step o k ih =>
    intro t ht hst hallowed
    obtain ⟨hgood, hrest⟩ := hp t ht hst hallowed
    exact ⟨hgood, ih _ hrest⟩

theorem attempt (hp : Safe D i (fun _ _ => True) p s) :
    Safe D i (fun _ _ => True) p.attempt s := by
  induction p generalizing s with
  | ret a => exact hp
  | raise e => exact fun _ _ _ => trivial
  | step o k ih =>
    intro t ht hst hallowed
    obtain ⟨hgood, hrest⟩ := hp t ht hst hallowed
    exact ⟨hgood, ih _ hrest⟩

/-- **A part whose operations are good in every state**, and whose result does not
matter. -/
theorem of_only {φ : Op → Prop} (hp : p.Only φ)
    (hφ : ∀ o, φ o → ∀ t, D.inv t → D.allowed i t o → D.good i t o)
    (hQ : ∀ a t, D.inv t → D.rely s t → Q a t) : Safe D i Q p s := by
  induction p generalizing s with
  | ret a => exact hQ a
  | raise e => trivial
  | step o k ih =>
    intro t ht hst hallowed
    have hgood := hφ o hp.1 t ht hallowed
    refine ⟨hgood, ih _ (hp.2 _) fun a u hu htu => hQ a u hu ?_⟩
    exact D.trans hst (D.trans (D.keeps i t o ht hallowed hgood).2 htu)

/-- Such a part, where every result satisfies something. -/
theorem of_yields {φ : Op → Prop} {R : α → Prop} (hp : p.Only φ) (hR : p.Yields R)
    (hφ : ∀ o, φ o → ∀ t, D.inv t → D.allowed i t o → D.good i t o) :
    Safe D i (fun a _ => R a) p s := by
  induction p generalizing s with
  | ret a => exact fun _ _ _ => hR
  | raise e => trivial
  | step o k ih =>
    intro t ht _ hallowed
    exact ⟨hφ o hp.1 t ht hallowed, ih _ (hp.2 _) (hR _)⟩

/-! Programs that start with a check, a computation, or a part whose result does not
matter. -/

theorem bind_raiseWhen {c : Prop} [Decidable c] {e : ε} {f : Unit → Prog Ret ε β}
    {Q : β → σ → Prop} (hf : ¬c → Safe D i Q (f ()) s) :
    Safe D i Q (Prog.raiseWhen c e >>= f) s :=
  bind (raiseWhen fun hc _ _ hst => (hf hc).later hst)

theorem bind_ofExcept {x : Except ε α} {f : α → Prog Ret ε β} {Q : β → σ → Prop}
    (hf : ∀ a, x = .ok a → Safe D i Q (f a) s) : Safe D i Q (Prog.ofExcept x >>= f) s :=
  bind (ofExcept fun a ha _ _ hst => (hf a ha).later hst)

theorem bind_only {φ : Op → Prop} {f : α → Prog Ret ε β} {Q : β → σ → Prop} (hp : p.Only φ)
    (hφ : ∀ o, φ o → ∀ t, D.inv t → D.allowed i t o → D.good i t o)
    (hf : ∀ a t, D.inv t → D.rely s t → Safe D i Q (f a) t) : Safe D i Q (p >>= f) s :=
  bind (of_only hp hφ hf)

/-- **A part whose operations are answered as in one given state**, whatever the others do.
What it returns it would have returned there. -/
theorem of_fixed {fixed : Op → Prop} {s₀ : σ} (hp : p.Only fixed)
    (hfixed : ∀ o, fixed o → ∀ t, D.inv t → h o t = ((h o s₀).1, t))
    (hstart : ∀ o, fixed o → (h o s₀).2 = s₀)
    (hgood : ∀ o, fixed o → ∀ t, D.inv t → D.allowed i t o → D.good i t o)
    (hQ : ∀ a, p.run h s₀ = (.ok a, s₀) → ∀ t, D.inv t → D.rely s t → Q a t) :
    Safe D i Q p s := by
  induction p generalizing s with
  | ret a => exact hQ a rfl
  | raise e => trivial
  | step o k ih =>
    intro t ht hst hallowed
    have hanswer := hfixed o hp.1 t ht
    refine ⟨hgood o hp.1 t ht hallowed, ?_⟩
    rw [hanswer]
    refine ih _ (hp.2 _) fun a hrun u hu htu => hQ a ?_ u hu (D.trans hst htu)
    change (k (h o s₀).1).run h (h o s₀).2 = _
    rw [hstart o hp.1]
    exact hrun

/-- **The rule of a loop** whose body finds out something that stays true. -/
theorem mapM {f : α → Prog Ret ε β} {F : α → β → σ → Prop} {l : List α}
    (hF : ∀ a b t u, D.rely t u → F a b t → F a b u)
    (hf : ∀ a t, D.inv t → D.rely s t → Safe D i (F a) (f a) t) :
    Safe D i (fun bs t => List.Forall₂ (fun a b => F a b t) l bs) (l.mapM f) s := by
  induction l generalizing s with
  | nil =>
    rw [List.mapM_nil]
    exact pure fun _ _ _ => .nil
  | cons a l ih =>
    rw [List.mapM_cons]
    refine bind (of_later fun t ht hst => (hf a t ht hst).imp fun b u hu htu hb => bind ?_)
    have hrest := ih (s := u) fun a' v hv huv =>
      hf a' v hv (D.trans hst (D.trans htu huv))
    exact hrest.imp fun bs v _ huv hbs => pure fun w _ hvw =>
      .cons (hF _ _ _ _ (D.trans huv hvw) hb) (hbs.imp fun _ _ => hF _ _ _ _ hvw)

end Safe

/-- What a loop has found was found for one of the elements it went over. -/
theorem exists_of_mem_right {R : α → β → Prop} {l : List α} {l' : List β}
    (h : List.Forall₂ R l l') {b : β} (hb : b ∈ l') : ∃ a ∈ l, R a b := by
  induction h with
  | nil => exact absurd hb List.not_mem_nil
  | cons hab _ ih =>
    rcases List.mem_cons.mp hb with rfl | hb
    · exact ⟨_, List.mem_cons_self, hab⟩
    · obtain ⟨a, ha, hr⟩ := ih hb
      exact ⟨a, List.mem_cons_of_mem _ ha, hr⟩

/-! ### Every schedule -/

variable {D} [DecidableEq ι] {c : Config Ret ε σ ι α} {Q : ι → α → σ → Prop} {schedule : List ι}

/-- **Clients that keep a discipline one by one keep it together**, in every schedule
whose steps are allowed. -/
theorem exec_safe (hinv : D.inv c.state) (hsafe : ∀ i, Safe D i (Q i) (c.rest i) c.state)
    (hallowed : ∀ earlier i, Made schedule earlier i → ∀ o, Performs (exec h c earlier) i o →
      D.allowed i (exec h c earlier).state o) :
    D.inv (exec h c schedule).state ∧ D.rely c.state (exec h c schedule).state ∧
      ∀ i, Safe D i (Q i) ((exec h c schedule).rest i) (exec h c schedule).state := by
  induction schedule using List.reverseRecOn with
  | nil => exact ⟨hinv, D.refl _, hsafe⟩
  | append_singleton schedule j ih =>
    have hlast := hallowed schedule j List.prefix_rfl
    obtain ⟨hinv', hrely, hsafe'⟩ := ih fun earlier i hmade =>
      hallowed earlier i (hmade.mono (List.prefix_append _ _))
    have hconcat : exec h c (schedule ++ [j]) = next h (exec h c schedule) j := exec_concat
    rw [hconcat]
    rcases next_cases h (exec h c schedule) j with heq | ⟨o, k, hrest, heq⟩
    · rw [heq]
      exact ⟨hinv', hrely, hsafe'⟩
    · -- Client `j` takes a step it may take; the others rely on what it guarantees.
      have hok := hlast o (by rw [Performs, hrest]; rfl)
      have hj := hsafe' j
      rw [hrest] at hj
      obtain ⟨hgood, hsafek⟩ := hj _ hinv' (D.refl _) hok
      obtain ⟨hinv'', hrely'⟩ := D.keeps j _ o hinv' hok hgood
      rw [heq]
      refine ⟨hinv'', D.trans hrely hrely', fun i => ?_⟩
      dsimp only
      by_cases hij : i = j
      · subst hij
        rw [Function.update_self]
        exact hsafek
      · rw [Function.update_of_ne hij]
        exact (hsafe' i).later hrely'

/-- **Every step that is taken is good.** -/
theorem exec_good (hinv : D.inv c.state) (hsafe : ∀ i, Safe D i (Q i) (c.rest i) c.state)
    (hallowed : ∀ earlier i, Made schedule earlier i → ∀ o, Performs (exec h c earlier) i o →
      D.allowed i (exec h c earlier).state o)
    {earlier : List ι} {i : ι} (hmade : Made schedule earlier i) {o : Op}
    (ho : Performs (exec h c earlier) i o) : D.good i (exec h c earlier).state o := by
  have hearlier : ∀ before j, Made earlier before j → ∀ o, Performs (exec h c before) j o →
      D.allowed j (exec h c before).state o :=
    fun before j hbefore => hallowed before j (hbefore.mono hmade.earlier)
  obtain ⟨hinv', -, hsafe'⟩ := exec_safe hinv hsafe hearlier
  have hi := hsafe' i
  rw [Performs] at ho
  rcases hrest : (exec h c earlier).rest i with a | e | ⟨o', k⟩
  · rw [hrest] at ho
    cases ho
  · rw [hrest] at ho
    cases ho
  · rw [hrest] at ho hi
    cases ho
    exact (hi _ hinv' (D.refl _) (hallowed earlier i hmade o (by rw [Performs, hrest]; rfl))).1

end Safe

end Interleaving
