import PowerfarmKernel.Lib.Dict

/-!
# Dictionaries written once

A content-addressed store binds a key once: a put of the value a key has already changes
nothing, and a put of any other value is refused (`Dict.Clashes`). A sequence of puts stops
at the first that is refused (`Dict.putAll`), and what it wrote before stays.

`Dict.putAll_fst` says which sequences are refused, and `Dict.putAll_snd_eq_iff` which of
those leave something behind.
-/

namespace Dict

variable {κ ν : Type} [DecidableEq κ] {d : Dict κ ν} {k : κ} {v : ν}

/-- A key is bound, and to another value. -/
def Clashes (d : Dict κ ν) (k : κ) (v : ν) : Prop := d.get? k ≠ none ∧ d.get? k ≠ some v

/-- A put that does not clash finds its key unbound, or bound to the value. -/
theorem not_clashes_iff : ¬d.Clashes k v ↔ d.get? k = none ∨ d.get? k = some v := by
  rw [Clashes, not_and_or, not_not, not_not]

/-- Without a clash, a put only grows the dictionary. -/
theorem le_set_of_not_clashes (h : ¬d.Clashes k v) : d ≤ d.set k v := by
  refine le_set fun w hw => ?_
  rcases not_clashes_iff.mp h with hnone | hsome
  · rw [hnone] at hw
    cases hw
  · rw [hsome] at hw
    exact (Option.some.inj hw).symm

/-- One of the puts is refused. -/
def Refused (d : Dict κ ν) : List (κ × ν) → Prop
  | [] => False
  | w :: ws => d.Clashes w.1 w.2 ∨ Refused (d.set w.1 w.2) ws

/-- One of the puts is refused, and one before it bound a key. -/
def Leaves (d : Dict κ ν) : List (κ × ν) → Prop
  | [] => False
  | w :: ws =>
      (d.get? w.1 = some w.2 ∧ Leaves d ws) ∨ (d.get? w.1 = none ∧ Refused (d.set w.1 w.2) ws)

/-- A sequence that leaves something was refused. -/
theorem Leaves.refused {ws : List (κ × ν)} (h : d.Leaves ws) : d.Refused ws := by
  induction ws generalizing d with
  | nil => exact h
  | cons w ws ih =>
    rcases h with ⟨hsome, hrest⟩ | ⟨-, hrest⟩
    · right
      rw [set_eq_self hsome]
      exact ih hrest
    · exact Or.inr hrest

variable [DecidableEq ν]

instance (d : Dict κ ν) (k : κ) (v : ν) : Decidable (d.Clashes k v) :=
  inferInstanceAs (Decidable (_ ∧ _))

/-- **A sequence of puts**, up to the first that is refused: whether it came to its end, and
what it left. -/
def putAll (d : Dict κ ν) : List (κ × ν) → Bool × Dict κ ν
  | [] => (true, d)
  | w :: ws => if d.Clashes w.1 w.2 then (false, d) else putAll (d.set w.1 w.2) ws

/-- **A sequence of puts comes to its end when none is refused.** -/
theorem putAll_fst (d : Dict κ ν) (ws : List (κ × ν)) :
    (d.putAll ws).1 = false ↔ d.Refused ws := by
  induction ws generalizing d with
  | nil => exact ⟨fun h => absurd h (by simp [putAll]), False.elim⟩
  | cons w ws ih =>
    rw [putAll, Refused]
    by_cases hclash : d.Clashes w.1 w.2
    · simp [hclash]
    · rw [if_neg hclash, ih]
      simp [hclash]

/-- Puts into dictionaries with the same bindings come to the same end, and leave the same
bindings. -/
theorem putAll_congr {d' : Dict κ ν} (h : ∀ k, d'.get? k = d.get? k) (ws : List (κ × ν)) :
    (d'.putAll ws).1 = (d.putAll ws).1 ∧ ∀ k, (d'.putAll ws).2.get? k = (d.putAll ws).2.get? k := by
  induction ws generalizing d d' with
  | nil => exact ⟨rfl, h⟩
  | cons w ws ih =>
    have hclashes : d'.Clashes w.1 w.2 ↔ d.Clashes w.1 w.2 := by rw [Clashes, Clashes, h]
    rw [putAll, putAll]
    by_cases hclash : d.Clashes w.1 w.2
    · rw [if_pos hclash, if_pos (hclashes.mpr hclash)]
      exact ⟨rfl, h⟩
    · rw [if_neg hclash, if_neg (mt hclashes.mp hclash)]
      exact ih fun k => by rw [get?_set, get?_set, h]

/-- Puts only grow the dictionary, also those that end in a refusal. -/
theorem le_putAll (d : Dict κ ν) (ws : List (κ × ν)) : d ≤ (d.putAll ws).2 := by
  induction ws generalizing d with
  | nil => exact le_refl _
  | cons w ws ih =>
    rw [putAll]
    by_cases hclash : d.Clashes w.1 w.2
    · rw [if_pos hclash]
    · rw [if_neg hclash]
      exact (le_set_of_not_clashes hclash).trans (ih _)

/-- What is bound after a sequence of puts was bound before, or is put by it. -/
theorem get?_putAll (d : Dict κ ν) (ws : List (κ × ν)) (h : (d.putAll ws).2.get? k = some v) :
    d.get? k = some v ∨ (k, v) ∈ ws := by
  induction ws generalizing d with
  | nil => exact Or.inl h
  | cons w ws ih =>
    rw [putAll] at h
    by_cases hclash : d.Clashes w.1 w.2
    · rw [if_pos hclash] at h
      exact Or.inl h
    · rw [if_neg hclash] at h
      -- It is the first put, or is known by induction.
      rcases ih _ h with hset | hmem
      · rcases get?_set_cases hset with ⟨hk, hv⟩ | ⟨-, hold⟩
        · exact Or.inr (List.mem_cons.mpr (Or.inl (Prod.ext hk hv)))
        · exact Or.inl hold
      · exact Or.inr (List.mem_cons_of_mem _ hmem)

/-- A sequence that is refused does not come to its last put. -/
theorem putAll_concat_of_refused (d : Dict κ ν) (ws : List (κ × ν)) (w : κ × ν)
    (h : d.Refused (ws ++ [w])) : (d.putAll (ws ++ [w])).2 = (d.putAll ws).2 := by
  induction ws generalizing d with
  | nil =>
    have hclash : d.Clashes w.1 w.2 := h.resolve_right id
    have hstop : (d.putAll [w]).2 = d := by rw [putAll, if_pos hclash]
    exact hstop
  | cons w' ws ih =>
    rw [List.cons_append, putAll, putAll]
    by_cases hclash : d.Clashes w'.1 w'.2
    · rw [if_pos hclash, if_pos hclash]
    · rw [if_neg hclash, if_neg hclash]
      exact ih _ (h.resolve_left hclash)

/-- **A sequence that is refused has changed nothing exactly when it leaves nothing.** -/
theorem putAll_snd_eq_iff (d : Dict κ ν) (ws : List (κ × ν)) (h : d.Refused ws) :
    (d.putAll ws).2 = d ↔ ¬d.Leaves ws := by
  induction ws generalizing d with
  | nil => exact h.elim
  | cons w ws ih =>
    rw [putAll, Leaves]
    by_cases hclash : d.Clashes w.1 w.2
    · rw [if_pos hclash]
      refine iff_of_true rfl ?_
      rintro (⟨hsome, -⟩ | ⟨hnone, -⟩)
      · exact hclash.2 hsome
      · exact hclash.1 hnone
    · have hrest : (d.set w.1 w.2).Refused ws := h.resolve_left hclash
      rw [if_neg hclash]
      rcases not_clashes_iff.mp hclash with hnone | hsome
      · -- The key was unbound and is bound from then on.
        refine iff_of_false (fun heq => ?_) fun hleaves => hleaves (Or.inr ⟨hnone, hrest⟩)
        have hbound := le_putAll (d.set w.1 w.2) ws w.1 w.2 get?_set_self
        rw [heq, hnone] at hbound
        cases hbound
      · rw [set_eq_self hsome] at hrest ⊢
        rw [ih d hrest]
        simp [hsome]

end Dict
