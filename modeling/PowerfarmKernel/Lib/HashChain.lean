import Mathlib.Data.List.Forall2

/-!
# Chains of hashes

A chain of records in which each one names the hash of the one before it
(`HashChain.Chain`). What a record names, and how it is hashed, is a relation `link`:
`link p r h` says that the record `r` names the hash `p` – or none, at the start – and has
itself the hash `h`.

Where a hash determines both what its record names and the record
(`HashChain.Binding`), the last hash of a chain determines the chain
(`HashChain.Chain.unique`): going back from the end, the records agree one by one, and the
two chains start together because a first record names nothing.
-/

namespace HashChain

variable {ρ η : Type} {link : Option η → ρ → η → Prop} {R : ρ → ρ → Prop}

/-- **A chain of records, with the hash it ends in.** -/
inductive Chain (link : Option η → ρ → η → Prop) : List ρ → η → Prop
  /-- The first record names none. -/
  | first {r : ρ} {h : η} : link none r h → Chain link [r] h
  /-- A later record names the hash of the one before it. -/
  | next {l : List ρ} {r : ρ} {h h' : η} : Chain link l h → link (some h) r h' →
      Chain link (l ++ [r]) h'

/-- **A hash binds its record**, up to `R`, and what the record names. -/
def Binding (link : Option η → ρ → η → Prop) (R : ρ → ρ → Prop) : Prop :=
  ∀ p p' r r' h, link p r h → link p' r' h → p = p' ∧ R r r'

/-- **The last hash of a chain determines the chain.** -/
theorem Chain.unique (hbinding : Binding link R) {l l' : List ρ} {h : η} (hl : Chain link l h)
    (hl' : Chain link l' h) : List.Forall₂ R l l' := by
  induction hl generalizing l' with
  | @first r h hlink =>
    cases hl' with
    | first hlink' => exact .cons (hbinding _ _ _ _ _ hlink hlink').2 .nil
    | next _ hlink' => cases (hbinding _ _ _ _ _ hlink hlink').1
  | @next l r k h _ hlink ih =>
    cases hl' with
    | first hlink' => cases (hbinding _ _ _ _ _ hlink hlink').1
    | next hchain hlink' =>
      obtain ⟨hnamed, hrecord⟩ := hbinding _ _ _ _ _ hlink hlink'
      cases hnamed
      exact List.rel_append (ih hchain) (.cons hrecord .nil)

end HashChain
