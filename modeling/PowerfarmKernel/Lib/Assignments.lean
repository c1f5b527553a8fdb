import Mathlib.Data.List.Pairwise
import PowerfarmKernel.Lib.Dict

/-!
# Assignments to a dictionary

A key that is assigned to again keeps its last value, so a sequence of assignments
(`Dict.merge`) can lose what it wrote itself, and what was there before. It never loses
anything exactly when the values it assigns to one key are all one value, and the one the key
had at the start (`Dict.agree_iff_le`).
-/

namespace Dict

variable {κ ν : Type} [DecidableEq κ] {d : Dict κ ν} {es : List (κ × ν)} {e : κ × ν} {k : κ}
  {v : ν}

/-- **Assignments agree** with a dictionary, and with each other. -/
structure Agree (d : Dict κ ν) (es : List (κ × ν)) : Prop where
  initial : ∀ e ∈ es, ∀ v, d.get? e.1 = some v → v = e.2
  pairwise : es.Pairwise fun e e' => e.1 = e'.1 → e.2 = e'.2

theorem merge_concat : d.merge (es ++ [e]) = (d.merge es).set e.1 e.2 := List.foldl_concat ..

/-- Assignments that agree give a key one value, wherever they stand. -/
theorem Agree.eq (h : d.Agree es) {e e' : κ × ν} (he : e ∈ es) (he' : e' ∈ es)
    (hkey : e.1 = e'.1) : e.2 = e'.2 := by
  have hflip : es.Pairwise (flip fun e e' : κ × ν => e.1 = e'.1 → e.2 = e'.2) :=
    h.pairwise.imp fun hee' heq => (hee' heq.symm).symm
  exact h.pairwise.forall_of_forall_of_flip (fun _ _ _ => rfl) hflip he he' hkey

/-- **What is bound after assignments that agree**: what was bound before, and what they
bind. -/
theorem Agree.get?_merge_iff (h : d.Agree es) :
    (d.merge es).get? k = some v ↔ (k, v) ∈ es ∨ d.get? k = some v := by
  have hnew : (k, v) ∈ es → (d.merge es).get? k = some v := fun hv =>
    get?_merge_of_mem hv fun w hw => h.eq hw hv rfl
  constructor
  · intro hget
    rcases get?_merge hget with ⟨pre, post, rfl, -⟩ | hold
    · exact Or.inl (List.mem_append_right _ List.mem_cons_self)
    · exact Or.inr hold
  · rintro (hv | hold)
    · exact hnew hv
    · -- A key that was bound is bound after, by an assignment or as it was.
      have hkey : k ∈ (d.merge es).keys := mem_keys_merge.mpr (Or.inl (mem_keys_of_get? hold))
      obtain ⟨w, hw⟩ := mem_keys_iff.mp hkey
      rcases get?_merge hw with ⟨pre, post, rfl, -⟩ | hsame
      · have hmem : (k, w) ∈ pre ++ (k, w) :: post :=
          List.mem_append_right _ List.mem_cons_self
        rw [hw, h.initial (k, w) hmem v hold]
      · rw [hw, ← hsame, hold]

/-- One more assignment agrees if it gives its key the value the key has. -/
theorem agree_concat_iff : d.Agree (es ++ [e]) ↔
    d.Agree es ∧ ∀ v, (d.merge es).get? e.1 = some v → v = e.2 := by
  constructor
  · rintro ⟨hinitial, hpairwise⟩
    rw [List.pairwise_append] at hpairwise
    have hes : d.Agree es :=
      ⟨fun e' he' => hinitial e' (List.mem_append_left _ he'), hpairwise.1⟩
    refine ⟨hes, fun v hv => ?_⟩
    rcases hes.get?_merge_iff.mp hv with hnew | hold
    · exact hpairwise.2.2 _ hnew e (List.mem_singleton_self e) rfl
    · exact hinitial e (List.mem_append_right _ (List.mem_singleton_self e)) v hold
  · rintro ⟨hes, hlast⟩
    refine ⟨fun e' he' v hv => ?_, ?_⟩
    · rcases List.mem_append.mp he' with he' | he'
      · exact hes.initial e' he' v hv
      · rw [List.mem_singleton.mp he'] at hv ⊢
        exact hlast v (hes.get?_merge_iff.mpr (Or.inr hv))
    · refine List.pairwise_append.mpr ⟨hes.pairwise, List.pairwise_singleton _ _, ?_⟩
      intro e' he' e'' he'' hkey
      rw [List.mem_singleton.mp he''] at hkey ⊢
      exact hlast e'.2 (hkey ▸ hes.get?_merge_iff.mpr (Or.inl he'))

/-- **Assignments lose nothing on the way exactly when they agree.** -/
theorem agree_iff_le : d.Agree es ↔
    ∀ pre post, pre <+: post → post <+: es → d.merge pre ≤ d.merge post := by
  induction es using List.reverseRecOn with
  | nil =>
    refine iff_of_true ⟨fun e he => (by cases he), List.Pairwise.nil⟩ ?_
    intro pre post hpre hpost
    rw [List.prefix_nil.mp hpost] at hpre ⊢
    rw [List.prefix_nil.mp hpre]
  | append_singleton es e ih =>
    rw [agree_concat_iff, ih]
    constructor
    · rintro ⟨hle, hlast⟩ pre post hpre hpost
      rcases List.prefix_concat_iff.mp hpost with rfl | hpost
      · rcases List.prefix_concat_iff.mp hpre with rfl | hpre
        · exact le_refl _
        · rw [merge_concat]
          exact (hle pre es hpre List.prefix_rfl).trans (le_set hlast)
      · exact hle pre post hpre hpost
    · intro hle
      refine ⟨fun pre post hpre hpost => ?_, fun v hv => ?_⟩
      · exact hle pre post hpre (hpost.trans (List.prefix_append _ _))
      · have hset := hle es (es ++ [e]) (List.prefix_append _ _) List.prefix_rfl _ v hv
        rw [merge_concat, get?_set_self] at hset
        exact (Option.some.inj hset).symm

end Dict
