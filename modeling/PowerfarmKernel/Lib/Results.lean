import Mathlib.Data.List.Forall2

/-!
# Computations on a list

A computation that may fail, done on every element of a list in turn. It returns when it
returns on every element, and then the results stand in the order of the elements
(`Results.mapM_ok_iff`); an exception is the exception of an element
(`Results.mapM_error`).
-/

namespace Results

variable {ε α β : Type}

section Forall₂

variable {R : α → β → Prop} {l : List α} {l' : List β}

/-- What stands on the right of a relation of lists stands against something on the left. -/
theorem exists_of_forall₂ (h : List.Forall₂ R l l') : ∀ b ∈ l', ∃ a ∈ l, R a b := by
  induction h with
  | nil => simp
  | cons hab _ ih =>
    intro b hb
    rcases List.mem_cons.mp hb with rfl | hb
    · exact ⟨_, List.mem_cons_self, hab⟩
    · obtain ⟨a, ha, hR⟩ := ih b hb
      exact ⟨a, List.mem_cons_of_mem _ ha, hR⟩

/-- A list whose elements all have a partner has a list of partners. -/
theorem exists_forall₂_of_forall (h : ∀ a ∈ l, ∃ b, R a b) : ∃ l', List.Forall₂ R l l' := by
  induction l with
  | nil => exact ⟨[], List.Forall₂.nil⟩
  | cons a l ih =>
    obtain ⟨b, hb⟩ := h a List.mem_cons_self
    obtain ⟨l', hl'⟩ := ih fun a' ha' => h a' (List.mem_cons_of_mem a ha')
    exact ⟨b :: l', List.Forall₂.cons hb hl'⟩

end Forall₂

variable {f g : α → Except ε β} {l : List α} {r : List β} {e : ε}

/-- **The results stand in the order of the elements.** -/
theorem mapM_ok_iff : l.mapM f = .ok r ↔ List.Forall₂ (fun a b => f a = .ok b) l r := by
  induction l generalizing r with
  | nil =>
    rw [List.mapM_nil, List.forall₂_nil_left_iff]
    constructor
    · rintro ⟨⟩
      rfl
    · rintro rfl
      rfl
  | cons a l ih =>
    rw [List.mapM_cons, List.forall₂_cons_left_iff]
    -- The first that raises ends the list.
    rcases ha : f a with e | b
    · refine iff_of_false (fun h => by cases h) ?_
      rintro ⟨b, bs, hb, -, -⟩
      cases hb
    rcases hl : l.mapM f with e | bs
    · refine iff_of_false (fun h => by cases h) ?_
      rintro ⟨b, bs, -, hbs, -⟩
      rw [ih.mpr hbs] at hl
      cases hl
    · constructor
      · rintro ⟨⟩
        exact ⟨b, bs, rfl, ih.mp hl, rfl⟩
      · rintro ⟨b', bs', hb, hbs, rfl⟩
        cases hb
        cases hl.symm.trans (ih.mpr hbs)
        rfl

/-- **The whole returns when every part does.** -/
theorem exists_mapM_ok_iff : (∃ r, l.mapM f = .ok r) ↔ ∀ a ∈ l, ∃ b, f a = .ok b := by
  constructor
  · rintro ⟨r, hr⟩ a ha
    obtain ⟨b, -, hb⟩ := exists_of_forall₂ (mapM_ok_iff.mp hr).flip a ha
    exact ⟨b, hb⟩
  · intro h
    obtain ⟨r, hr⟩ := exists_forall₂_of_forall h
    exact ⟨r, mapM_ok_iff.mpr hr⟩

/-- **An exception of the whole is the exception of a part.** -/
theorem mapM_error (h : l.mapM f = .error e) : ∃ a ∈ l, f a = .error e := by
  induction l with
  | nil => cases h
  | cons a l ih =>
    rw [List.mapM_cons] at h
    rcases ha : f a with e' | b
    · rw [ha] at h
      cases h
      exact ⟨a, List.mem_cons_self, ha⟩
    rcases hl : l.mapM f with e' | bs
    · rw [ha, hl] at h
      cases h
      obtain ⟨a', ha', he⟩ := ih hl
      exact ⟨a', List.mem_cons_of_mem a ha', he⟩
    · rw [ha, hl] at h
      cases h

/-- Computations that agree on the elements agree on the list. -/
theorem mapM_congr (h : ∀ a ∈ l, f a = g a) : l.mapM f = l.mapM g := by
  induction l with
  | nil => rfl
  | cons a l ih =>
    rw [List.mapM_cons, List.mapM_cons, h a List.mem_cons_self,
      ih fun a ha => h a (List.mem_cons_of_mem _ ha)]

end Results
