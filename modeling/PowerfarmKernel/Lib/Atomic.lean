import PowerfarmKernel.Lib.Interleaving

/-!
# Runs that could have been atomic

A client takes its steps one by one, and others act in between. Its run is as good as
atomic when there is a moment at which all of it could have been done at once, with the
same answers. The answers need not have been given at that moment: it is enough that each
of them would have been the same then.

`Interleaving.Firm` says so of a program: whatever the others do between its steps, after
every operation in the window around the moment it goes on as it would have gone on at that
moment, where the operation changes nothing – or else it misses the moment
(`Interleaving.Missed`). The rules below prove it along the program, and
`Interleaving.exec_firm` is the conclusion for every schedule: run at that moment, the
program does what is left of it does there. What comes after the moment is the business of
`Interleaving.Closing`: some operations are the last thing a program does.
-/

namespace Interleaving

open Runs

variable {Op : Type} {Ret : Op → Type} {ε σ ι α β : Type}

/-- **How a store drifts**, whatever is done to it: an invariant, and a relation every
operation stays within. -/
structure Drift {Op : Type} {Ret : Op → Type} {ε σ : Type} (h : Handler Ret ε σ) where
  inv : σ → Prop
  rely : σ → σ → Prop
  refl : ∀ s, rely s s
  trans : ∀ {s t u}, rely s t → rely t u → rely s u
  keeps : ∀ s o, inv s → inv (h o s).2 ∧ rely s (h o s).2

/-- **A moment**, as a client looks at it: the state at that moment, the states in the
window around it, what is assumed of the steps the client takes in the window, and the
operations that cannot be what happens at that moment. -/
structure Moment (Op σ : Type) where
  state : σ
  window : σ → Prop
  allowed : σ → Op → Prop
  other : Op → Prop

section Missed

variable (M : Moment Op σ)

/-- **A program that misses the moment**: all it still performs are other operations, and
if it returns, then one of the values in `B`. -/
def Missed (B : α → Prop) : Prog Ret ε α → Prop
  | .ret a => B a
  | .raise _ => True
  | .step o k => M.other o ∧ ∀ r, Missed B (k r)

namespace Missed

variable {M} {B : α → Prop} {B' : β → Prop} {p : Prog Ret ε α}

theorem bind {f : α → Prog Ret ε β} (hp : Missed M B p) (hf : ∀ a, B a → Missed M B' (f a)) :
    Missed M B' (p >>= f) := by
  induction p with
  | ret a => exact hf a hp
  | raise e => trivial
  | step o k ih => exact ⟨hp.1, fun r => ih r (hp.2 r)⟩

theorem imp {B' : α → Prop} (hp : Missed M B p) (hbad : ∀ a, B a → B' a) :
    Missed M B' p := by
  induction p with
  | ret a => exact hbad a hp
  | raise e => trivial
  | step o k ih => exact ⟨hp.1, fun r => ih r (hp.2 r)⟩

theorem mapError (hp : Missed M B p) (f : ε → ε) : Missed M B (p.mapError f) := by
  induction p with
  | ret a => exact hp
  | raise e => trivial
  | step o k ih => exact ⟨hp.1, fun r => ih r (hp.2 r)⟩

theorem of_only (hp : p.Only M.other) (hbad : ∀ a, B a) : Missed M B p := by
  induction p with
  | ret a => exact hbad a
  | raise e => trivial
  | step o k ih => exact ⟨hp.1, fun r => ih r (hp.2 r)⟩

theorem bind_only {f : α → Prog Ret ε β} (hp : p.Only M.other)
    (hf : ∀ a, Missed M B' (f a)) : Missed M B' (p >>= f) :=
  (of_only (B := fun _ => True) hp fun _ => trivial).bind fun a _ => hf a

theorem raiseWhen {c : Prop} [Decidable c] {e : ε} {B : Unit → Prop} (hc : c) :
    Missed M B (Prog.raiseWhen c e : Prog Ret ε Unit) := by
  rw [Prog.raiseWhen, if_pos hc]
  trivial

end Missed

end Missed

section Firm

variable {h : Handler Ret ε σ} (F : Drift h) (M : Moment Op σ)

/-- **A program that is firm at a moment**, from a state on: after every answer it gets in
the window it goes on as it would have gone on at that moment, where the operation changes
nothing – or it misses the moment. `Q` holds of what it returns, then and later; of the
values in `B` nothing is said. -/
def Firm (B : α → Prop) (Q : α → σ → Prop) : Prog Ret ε α → σ → Prop
  | .ret a, s => ∀ t, F.inv t → F.rely s t → Q a t
  | .raise _, _ => True
  | .step o k, s => ∀ t, F.inv t → F.rely s t → M.allowed t o → M.window (h o t).2 →
      Missed M B (k (h o t).1) ∨
        (k (h o M.state).1 = k (h o t).1 ∧ (h o M.state).2 = M.state ∧
          Firm B Q (k (h o t).1) (h o t).2)

namespace Firm

variable {F M} {B : α → Prop} {B' : β → Prop} {Q Q' : α → σ → Prop} {p : Prog Ret ε α}
  {s t : σ}

theorem later (hp : Firm F M B Q p s) (hst : F.rely s t) : Firm F M B Q p t := by
  cases p with
  | ret a => exact fun u hu htu => hp u hu (F.trans hst htu)
  | raise e => trivial
  | step o k => exact fun u hu htu => hp u hu (F.trans hst htu)

theorem of_later (hp : ∀ t, F.inv t → F.rely s t → Firm F M B Q p t) : Firm F M B Q p s := by
  cases p with
  | ret a => exact fun t ht hst => hp t ht hst t ht (F.refl t)
  | raise e => trivial
  | step o k => exact fun t ht hst => hp t ht hst t ht (F.refl t)

theorem imp (hp : Firm F M B Q p s) (hQ : ∀ a t, F.inv t → F.rely s t → Q a t → Q' a t) :
    Firm F M B Q' p s := by
  induction p generalizing s with
  | ret a => exact fun t ht hst => hQ a t ht hst (hp t ht hst)
  | raise e => trivial
  | step o k ih =>
    intro t ht hst hallowed hwindow
    refine (hp t ht hst hallowed hwindow).imp_right fun ⟨hsame, hkept, hrest⟩ =>
      ⟨hsame, hkept, ih _ hrest ?_⟩
    exact fun a u hu htu => hQ a u hu (F.trans hst (F.trans (F.keeps t o ht).2 htu))

theorem imp_bad {B' : α → Prop} (hp : Firm F M B Q p s) (hbad : ∀ a, B a → B' a) :
    Firm F M B' Q p s := by
  induction p generalizing s with
  | ret a => exact hp
  | raise e => trivial
  | step o k ih =>
    intro t ht hst hallowed hwindow
    exact (hp t ht hst hallowed hwindow).imp (fun hmissed => hmissed.imp hbad)
      fun ⟨hsame, hkept, hrest⟩ => ⟨hsame, hkept, ih _ hrest⟩

/-- **The rule of sequencing.** After a value of which nothing is said, the sequence must
miss the moment. -/
theorem bind {f : α → Prog Ret ε β} {Q : β → σ → Prop}
    (hp : Firm F M B (fun a t => Firm F M B' Q (f a) t) p s)
    (hbad : ∀ a, B a → Missed M B' (f a)) : Firm F M B' Q (p >>= f) s := by
  induction p generalizing s with
  | ret a => exact of_later hp
  | raise e => trivial
  | step o k ih =>
    intro t ht hst hallowed hwindow
    rcases hp t ht hst hallowed hwindow with hmissed | ⟨hsame, hkept, hrest⟩
    · exact Or.inl (hmissed.bind hbad)
    · exact Or.inr ⟨congrArg (· >>= f) hsame, hkept, ih _ hrest⟩

/-- The rule of sequencing, for a first part that never misses. -/
theorem seq {f : α → Prog Ret ε β} {Q : β → σ → Prop}
    (hp : Firm F M (fun _ => False) (fun a t => Firm F M B' Q (f a) t) p s) :
    Firm F M B' Q (p >>= f) s :=
  bind hp fun _ hfalse => hfalse.elim

/-- **The rule of one operation.** An exception it raises ends the program. -/
theorem call {o : Op} {B : Ret o → Prop} {Q : Ret o → σ → Prop}
    (ho : ∀ t, F.inv t → F.rely s t → M.allowed t o → M.window (h o t).2 →
      ∀ a, (h o t).1 = .ok a → B a ∨
        (h o M.state = (.ok a, M.state) ∧ ∀ u, F.inv u → F.rely (h o t).2 u → Q a u)) :
    Firm F M B Q (Prog.call o) s := by
  intro t ht hst hallowed hwindow
  rcases hr : (h o t).1 with e | a
  · exact Or.inl trivial
  · rcases ho t ht hst hallowed hwindow a hr with hbad | ⟨hsame, hQ⟩
    · exact Or.inl hbad
    · exact Or.inr ⟨by rw [hsame], by rw [hsame], hQ⟩

/-- **The rule of one operation and what follows it**: it is enough that the same follows
the answer at the moment. -/
theorem bind_call {o : Op} {f : Ret o → Prog Ret ε β} {Q : β → σ → Prop}
    (ho : ∀ t, F.inv t → F.rely s t → M.allowed t o → M.window (h o t).2 →
      ∀ a, (h o t).1 = .ok a → Missed M B' (f a) ∨
        ∃ b, h o M.state = (.ok b, M.state) ∧ f b = f a ∧ Firm F M B' Q (f a) (h o t).2) :
    Firm F M B' Q (Prog.call o >>= f) s := by
  intro t ht hst hallowed hwindow
  rcases hr : (h o t).1 with e | a
  · exact Or.inl trivial
  · rcases ho t ht hst hallowed hwindow a hr with hmissed | ⟨b, hb, hsame, hrest⟩
    · exact Or.inl hmissed
    · refine Or.inr ⟨?_, by rw [hb], hrest⟩
      rw [hb]
      exact hsame

theorem pure {a : α} (ha : ∀ t, F.inv t → F.rely s t → Q a t) :
    Firm F M B Q (Pure.pure a : Prog Ret ε α) s := ha

theorem ofExcept {x : Except ε α} (hx : ∀ a, x = .ok a → ∀ t, F.inv t → F.rely s t → Q a t) :
    Firm F M B Q (Prog.ofExcept x) s := by
  rcases x with e | a
  · trivial
  · exact hx a rfl

theorem raiseWhen {c : Prop} [Decidable c] {e : ε} {B : Unit → Prop} {Q : Unit → σ → Prop}
    (hc : ¬c → ∀ t, F.inv t → F.rely s t → Q () t) :
    Firm F M B Q (Prog.raiseWhen c e) s := by
  by_cases h : c
  · rw [Prog.raiseWhen, if_pos h]
    trivial
  · rw [Prog.raiseWhen, if_neg h]
    exact hc h

theorem mapError (hp : Firm F M B Q p s) (f : ε → ε) : Firm F M B Q (p.mapError f) s := by
  induction p generalizing s with
  | ret a => exact hp
  | raise e => trivial
  | step o k ih =>
    intro t ht hst hallowed hwindow
    rcases hp t ht hst hallowed hwindow with hmissed | ⟨hsame, hkept, hrest⟩
    · exact Or.inl (hmissed.mapError f)
    · exact Or.inr ⟨congrArg (Prog.mapError f) hsame, hkept, ih _ hrest⟩

/-- **A part all of whose operations are answered alike**, exceptions included, returns
what it would return at the moment. -/
theorem of_only {φ : Op → Prop} (hp : p.Only φ)
    (hφ : ∀ o, φ o → ∀ t, F.inv t → F.rely s t → M.window (h o t).2 →
      h o M.state = ((h o t).1, M.state))
    (hQ : ∀ a t, F.inv t → F.rely s t → p.run h M.state = (.ok a, M.state) → Q a t) :
    Firm F M B Q p s := by
  induction p generalizing s with
  | ret a => exact fun t ht hst => hQ a t ht hst rfl
  | raise e => trivial
  | step o k ih =>
    intro t ht hst hallowed hwindow
    have hkept : F.rely s (h o t).2 := F.trans hst (F.keeps t o ht).2
    have hsame := hφ o hp.1 t ht hst hwindow
    refine Or.inr ⟨by rw [hsame], by rw [hsame], ih _ (hp.2 _) ?_ ?_⟩
    · exact fun o' ho' u hu htu => hφ o' ho' u hu (F.trans hkept htu)
    · intro a u hu htu hrun
      refine hQ a u hu (F.trans hkept htu) ?_
      rw [Prog.run, hsame]
      exact hrun

/-! Programs that start with a check, a computation, or a part that is answered alike. -/

theorem bind_raiseWhen {c : Prop} [Decidable c] {e : ε} {f : Unit → Prog Ret ε β}
    {Q : β → σ → Prop} (hf : ¬c → Firm F M B' Q (f ()) s) :
    Firm F M B' Q (Prog.raiseWhen c e >>= f) s :=
  seq (raiseWhen fun hc _ _ hst => (hf hc).later hst)

theorem bind_ofExcept {x : Except ε α} {f : α → Prog Ret ε β} {Q : β → σ → Prop}
    (hf : ∀ a, x = .ok a → Firm F M B' Q (f a) s) :
    Firm F M B' Q (Prog.ofExcept x >>= f) s :=
  seq (ofExcept fun a ha _ _ hst => (hf a ha).later hst)

theorem bind_only {φ : Op → Prop} {f : α → Prog Ret ε β} {Q : β → σ → Prop} (hp : p.Only φ)
    (hφ : ∀ o, φ o → ∀ t, F.inv t → F.rely s t → M.window (h o t).2 →
      h o M.state = ((h o t).1, M.state))
    (hf : ∀ a t, F.inv t → F.rely s t → p.run h M.state = (.ok a, M.state) →
      Firm F M B' Q (f a) t) :
    Firm F M B' Q (p >>= f) s :=
  seq (of_only hp hφ hf)

/-- **The rule of a search** that ends at the first value of which nothing is said. -/
theorem anyM {f : α → Prog Ret ε Bool} {B : Bool → Prop} {Q : Bool → σ → Prop}
    (hf : ∀ a t, F.inv t → F.rely s t → Firm F M (fun b => b = true ∧ B true) (fun _ _ => True)
      (f a) t)
    (hQ : ∀ b t, F.inv t → F.rely s t → Q b t) (l : List α) :
    Firm F M B Q (l.anyM f) s := by
  induction l generalizing s with
  | nil => exact pure (hQ false)
  | cons a l ih =>
    rw [List.anyM]
    refine bind (of_later fun t ht hst => (hf a t ht hst).imp fun b u hu htu _ => ?_) ?_
    · have hsu := F.trans hst htu
      cases b
      · exact ih (fun a' v hv huv => hf a' v hv (F.trans hsu huv))
          fun b' v hv huv => hQ b' v hv (F.trans hsu huv)
      · exact pure fun v hv huv => hQ true v hv (F.trans hsu huv)
    · rintro b ⟨rfl, hbad⟩
      exact hbad

end Firm

/-! ### Every schedule -/

variable {F M} [DecidableEq ι] {c : Config Ret ε σ ι α} {i : ι} {B : α → Prop}
  {Q : α → σ → Prop} {schedule : List ι}

theorem exec_inv_of_drift (F : Drift h) (hinv : F.inv c.state) (schedule : List ι) :
    F.inv (exec h c schedule).state :=
  exec_state_inv (fun s o hs => (F.keeps s o hs).1) hinv schedule

/-- A step of one client is a drift of the store. -/
theorem next_rely (F : Drift h) (hinv : F.inv c.state) (i : ι) :
    F.rely c.state (next h c i).state := by
  rcases next_cases h c i with heq | ⟨o, k, -, heq⟩
  · rw [heq]
    exact F.refl _
  · rw [heq]
    exact (F.keeps c.state o hinv).2

/-- What a client has yet to do is left alone by the others. -/
theorem next_rest_of_ne {j : ι} (hne : i ≠ j) : (next h c j).rest i = c.rest i := by
  rcases next_cases h c j with heq | ⟨o, k, -, heq⟩
  · rw [heq]
  · rw [heq]
    exact Function.update_of_ne hne _ _

theorem exec_append_concat {before rest : List ι} {j : ι} :
    exec h c (before ++ (rest ++ [j])) = next h (exec h c (before ++ rest)) j := by
  rw [← List.append_assoc]
  exact exec_concat

/-- **A drift goes on through a schedule.** -/
theorem exec_rely (F : Drift h) (hinv : F.inv c.state) {before schedule : List ι}
    (hpre : before <+: schedule) :
    F.rely (exec h c before).state (exec h c schedule).state := by
  obtain ⟨rest, rfl⟩ := hpre
  induction rest using List.reverseRecOn with
  | nil =>
    rw [List.append_nil]
    exact F.refl _
  | append_singleton rest j ih =>
    rw [exec_append_concat]
    exact F.trans ih (next_rely F (exec_inv_of_drift F hinv _) j)

/-- What is left of programs of some operations are programs of these operations. -/
theorem exec_only {φ : Op → Prop} (honly : ∀ i, (c.rest i).Only φ) (schedule : List ι) (i : ι) :
    ((exec h c schedule).rest i).Only φ := by
  have hstep : ∀ (c : Config Ret ε σ ι α) j, (∀ i, (c.rest i).Only φ) →
      ∀ i, ((next h c j).rest i).Only φ := by
    intro c j hc i
    rcases next_cases h c j with heq | ⟨o, k, hrest, heq⟩
    · rw [heq]
      exact hc i
    · rw [heq]
      dsimp only
      by_cases hij : i = j
      · subst hij
        have hi := hc i
        rw [hrest] at hi
        rw [Function.update_self]
        exact hi.2 _
      · rw [Function.update_of_ne hij]
        exact hc i
  exact exec_inv hstep honly schedule i

/-- **A relation that every operation the clients perform stays within** relates an earlier
state of a schedule to a later one. -/
theorem exec_rel_of_only {φ : Op → Prop} {R : σ → σ → Prop} (hrefl : ∀ s, R s s)
    (htrans : ∀ {s t u}, R s t → R t u → R s u) (hop : ∀ o, φ o → ∀ s, R s (h o s).2)
    (honly : ∀ i, (c.rest i).Only φ) {before schedule : List ι} (hpre : before <+: schedule) :
    R (exec h c before).state (exec h c schedule).state := by
  obtain ⟨rest, rfl⟩ := hpre
  induction rest using List.reverseRecOn with
  | nil =>
    rw [List.append_nil]
    exact hrefl _
  | append_singleton rest j ih =>
    rw [exec_append_concat]
    refine htrans ih ?_
    rcases next_cases h (exec h c (before ++ rest)) j with heq | ⟨o, k, hrest, heq⟩
    · rw [heq]
      exact hrefl _
    · have hj := exec_only (h := h) honly (before ++ rest) j
      rw [hrest] at hj
      rw [heq]
      exact hop o hj.1 _

/-- **A firm client, after any schedule**, has missed the moment or is still firm; and in
the second case what it has done so far could have been done at the moment: run there from
the start, it does what the rest of it does there. -/
theorem exec_firm (hinv : F.inv c.state) (hfirm : Firm F M B Q (c.rest i) c.state)
    (hsteps : ∀ earlier, Made schedule earlier i → ∀ o, Performs (exec h c earlier) i o →
      M.allowed (exec h c earlier).state o ∧ M.window (next h (exec h c earlier) i).state) :
    Missed M B ((exec h c schedule).rest i) ∨
      (Firm F M B Q ((exec h c schedule).rest i) (exec h c schedule).state ∧
        (c.rest i).run h M.state = ((exec h c schedule).rest i).run h M.state) := by
  induction schedule using List.reverseRecOn with
  | nil => exact Or.inr ⟨hfirm, rfl⟩
  | append_singleton schedule j ih =>
    have hlast : exec h c (schedule ++ [j]) = next h (exec h c schedule) j := exec_concat
    have hbefore := ih fun earlier hmade => hsteps earlier (hmade.mono (List.prefix_append _ _))
    have hinv' := exec_inv_of_drift F hinv schedule
    rw [hlast]
    by_cases hij : i = j
    · subst hij
      rcases hrest : (exec h c schedule).rest i with a | e | ⟨o, k⟩
      -- A client that has returned or raised does nothing.
      · have heq : next h (exec h c schedule) i = exec h c schedule := by rw [next, hrest]
        rw [heq]
        exact hbefore
      · have heq : next h (exec h c schedule) i = exec h c schedule := by rw [next, hrest]
        rw [heq]
        exact hbefore
      · have heq : next h (exec h c schedule) i = ⟨(h o (exec h c schedule).state).2,
            Function.update (exec h c schedule).rest i (k (h o (exec h c schedule).state).1)⟩ := by
          rw [next, hrest]
        obtain ⟨hallowed, hwindow⟩ :=
          hsteps schedule List.prefix_rfl o (by rw [Performs, hrest]; rfl)
        rw [hrest] at hbefore
        rw [heq] at hwindow ⊢
        dsimp only at hwindow ⊢
        rw [Function.update_self]
        rcases hbefore with hmissed | ⟨hstill, hrun⟩
        · exact Or.inl (hmissed.2 _)
        rcases hstill _ hinv' (F.refl _) hallowed hwindow with hmissed | ⟨hsame, hkept, hstill⟩
        · exact Or.inl hmissed
        -- At the moment the client would have gone on alike, from the same state.
        · refine Or.inr ⟨hstill, hrun.trans ?_⟩
          rw [Prog.run, hsame, hkept]
    · rw [next_rest_of_ne hij]
      exact hbefore.imp_right fun hstill => ⟨hstill.1.later (next_rely F hinv' j), hstill.2⟩

/-- What a program has returned. -/
def returned? : Prog Ret ε α → Option α
  | .ret a => some a
  | _ => none

theorem returned?_eq_some {p : Prog Ret ε α} {a : α} (h : returned? p = some a) : p = .ret a := by
  cases p with
  | ret b => rw [Option.some.inj h]
  | raise e => cases h
  | step o k => cases h

/-! ### Looking back at a first step -/

/-- **The moment of a first step**, in a schedule: the steps of the client that come after it
are taken in states the store has drifted to, and none of them is what happens then. -/
def onward (F : Drift h) (c : Config Ret ε σ ι α) (schedule : List ι) (i : ι)
    (first : List ι) : Moment Op σ where
  state := (exec h c first).state
  window := F.rely (exec h c first).state
  allowed t _ := ∃ later, first <+: later ∧ Made schedule later i ∧ t = (exec h c later).state
  other _ := False

theorem exec_rest_of_notMem (hi : i ∉ schedule) : (exec h c schedule).rest i = c.rest i := by
  induction schedule using List.reverseRecOn with
  | nil => rfl
  | append_singleton schedule j ih =>
    have hlast : exec h c (schedule ++ [j]) = next h (exec h c schedule) j := exec_concat
    rw [List.mem_append, List.mem_singleton, not_or] at hi
    rw [hlast, next_rest_of_ne hi.2, ih hi.1]

/-- **A client that reads in its first step and is firm from there on** has done what it
would have done at once in that step, as far as it is firm. -/
theorem exec_onward (hinv : F.inv c.state) {o : Op} {k : Except ε (Ret o) → Prog Ret ε α}
    (hrest : c.rest i = .step o k) (ho : ∀ s, (h o s).2 = s) {B : List ι → α → Prop}
    (hfirm : ∀ first, Made schedule first i →
      Firm F (onward F c schedule i first) (B first) Q (k (h o (exec h c first).state).1)
        (exec h c first).state) (hi : i ∈ schedule) :
    ∃ first, Made schedule first i ∧
      (Missed (onward F c schedule i first) (B first) ((exec h c schedule).rest i) ∨
        (Firm F (onward F c schedule i first) (B first) Q ((exec h c schedule).rest i)
            (exec h c schedule).state ∧
          (c.rest i).run h (exec h c first).state =
            ((exec h c schedule).rest i).run h (exec h c first).state)) := by
  obtain ⟨first, later, rfl, hnew⟩ := List.eq_append_cons_of_mem hi
  have hmade : Made (first ++ i :: later) first i := ⟨later, by simp⟩
  have hstart : (exec h c first).rest i = .step o k := (exec_rest_of_notMem hnew).trans hrest
  have hcut : ∀ before, exec h (next h (exec h c first) i) before =
      exec h c (first ++ i :: before) := by
    intro before
    change before.foldl (next h) (next h (first.foldl (next h) c) i) =
      (first ++ i :: before).foldl (next h) c
    rw [List.foldl_append]
    rfl
  have hnext : next h (exec h c first) i = ⟨(exec h c first).state,
      Function.update (exec h c first).rest i (k (h o (exec h c first).state).1)⟩ := by
    rw [next, hstart]
    dsimp only
    rw [ho]
  have hinv' := exec_inv_of_drift F hinv first
  have hsteps : ∀ before, Made later before i → ∀ o',
      Performs (exec h (next h (exec h c first) i) before) i o' →
        (onward F c (first ++ i :: later) i first).allowed
          (exec h (next h (exec h c first) i) before).state o' ∧
        (onward F c (first ++ i :: later) i first).window
          (next h (exec h (next h (exec h c first) i) before) i).state := by
    intro before hbefore o' _
    rw [hcut]
    refine ⟨⟨first ++ i :: before, List.prefix_append _ _, ?_, rfl⟩, ?_⟩
    · obtain ⟨rest, hrest⟩ := hbefore
      exact ⟨rest, by rw [← hrest]; simp⟩
    · have hlast : exec h c (first ++ i :: before ++ [i]) =
          next h (exec h c (first ++ i :: before)) i := exec_concat
      rw [← hlast, List.append_assoc]
      exact exec_rely F hinv (List.prefix_append _ _)
  have hstate : (next h (exec h c first) i).state = (exec h c first).state := by rw [hnext]
  have hrest' : (next h (exec h c first) i).rest i = k (h o (exec h c first).state).1 := by
    rw [hnext]
    exact Function.update_self ..
  refine ⟨first, hmade, ?_⟩
  have hend := exec_firm (F := F) (M := onward F c (first ++ i :: later) i first)
    (B := B first) (Q := Q) (c := next h (exec h c first) i)
    (by rw [hstate]; exact hinv') (by rw [hstate, hrest']; exact hfirm first hmade) hsteps
  rw [hcut] at hend
  refine hend.imp_right fun hstill => ⟨hstill.1, Eq.trans ?_ hstill.2⟩
  rw [hrest, hrest']
  change (k (h o (exec h c first).state).1).run h (h o (exec h c first).state).2 = _
  rw [ho]
  rfl

end Firm

/-! ### The last thing a program does -/

/-- **The operations of a kind are the last thing a program does**: answered, it returns,
and `R` relates what it returns to the answer. -/
def Closing (φ : Op → Prop) (R : (o : Op) → Ret o → α → Prop) : Prog Ret ε α → Prop
  | .ret _ => True
  | .raise _ => True
  | .step o k => (φ o → ∀ a, ∃ b, k (.ok a) = .ret b ∧ R o a b) ∧ ∀ r, Closing φ R (k r)

namespace Closing

variable {φ ψ : Op → Prop} {R : (o : Op) → Ret o → α → Prop} {p : Prog Ret ε α}

/-- A program that performs no operation of the kind, and then one that does. -/
theorem bind {R : (o : Op) → Ret o → β → Prop} {f : α → Prog Ret ε β} (hp : p.Only ψ)
    (hψ : ∀ o, ψ o → ¬φ o) (hf : ∀ a, Closing φ R (f a)) : Closing φ R (p >>= f) := by
  induction p with
  | ret a => exact hf a
  | raise e => trivial
  | step o k ih => exact ⟨fun hφ => absurd hφ (hψ o hp.1), fun r => ih r (hp.2 r)⟩

/-- A program that ends in an operation of the kind, and a computation. -/
theorem bind_ret {R : (o : Op) → Ret o → α → Prop} {R' : (o : Op) → Ret o → β → Prop}
    {f : α → Prog Ret ε β} (hp : Closing φ R p) (hf : ∀ a, ∃ b, f a = .ret b ∧
      ∀ o r, R o r a → R' o r b) : Closing φ R' (p >>= f) := by
  induction p with
  | ret a =>
    obtain ⟨b, hb, -⟩ := hf a
    change Closing φ R' (f a)
    rw [hb]
    trivial
  | raise e => trivial
  | step o k ih =>
    refine ⟨fun hφ r => ?_, fun r => ih r (hp.2 r)⟩
    obtain ⟨a, ha, hr⟩ := hp.1 hφ r
    obtain ⟨b, hb, hall⟩ := hf a
    refine ⟨b, ?_, hall o r hr⟩
    change k (.ok r) >>= f = _
    rw [ha]
    exact hb

theorem mapError (hp : Closing φ R p) (f : ε → ε) : Closing φ R (p.mapError f) := by
  induction p with
  | ret a => trivial
  | raise e => trivial
  | step o k ih =>
    refine ⟨fun hφ r => ?_, fun r => ih r (hp.2 r)⟩
    obtain ⟨a, ha, hr⟩ := hp.1 hφ r
    refine ⟨a, ?_, hr⟩
    change (k (.ok r)).mapError f = _
    rw [ha]
    rfl

theorem call {o : Op} {R : (o' : Op) → Ret o' → Ret o → Prop} (hR : φ o → ∀ a, R o a a) :
    Closing φ R (Prog.call o : Prog Ret ε (Ret o)) := by
  refine ⟨fun hφ a => ⟨a, rfl, hR hφ a⟩, fun r => ?_⟩
  rcases r with e | a
  · trivial
  · trivial

/-- What is left of a program keeps its last thing last. -/
theorem rest_next [DecidableEq ι] {h : Handler Ret ε σ} {c : Config Ret ε σ ι α} {i : ι}
    (hi : Closing φ R (c.rest i)) (j : ι) : Closing φ R ((next h c j).rest i) := by
  rcases next_cases h c j with heq | ⟨o, k, hrest, heq⟩
  · rw [heq]
    exact hi
  · rw [heq]
    dsimp only
    by_cases hij : i = j
    · subst hij
      rw [Function.update_self]
      rw [hrest] at hi
      exact hi.2 _
    · rw [Function.update_of_ne hij]
      exact hi

theorem rest_exec [DecidableEq ι] {h : Handler Ret ε σ} {c : Config Ret ε σ ι α} {i : ι}
    (hi : Closing φ R (c.rest i)) (schedule : List ι) :
    Closing φ R ((exec h c schedule).rest i) := by
  have hstep : ∀ (c : Config Ret ε σ ι α) j, Closing φ R (c.rest i) →
      Closing φ R ((next h c j).rest i) := fun _ j hc => hc.rest_next j
  exact exec_inv hstep hi schedule

end Closing

end Interleaving
