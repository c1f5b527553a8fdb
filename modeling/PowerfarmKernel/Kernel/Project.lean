import PowerfarmKernel.Lib.Linearization
import PowerfarmKernel.Kernel.History

/-!
# Deterministic projection

A projection folds a listing of Acts into a state (`PowerfarmKernel.project`), and the
listing is supplied by the caller. What is constitutional is the ancestry of the Acts;
any listing along it is as good as any other, and most of them differ.

`PowerfarmKernel.rebuild_eq_of_linearizes` says that the choice does not show: a projector
whose steps commute on Acts neither of which is an ancestor of the other rebuilds the same
materialization from every listing of a cut. The order in which the gate committed is one
of the listings (`PowerfarmKernel.Gate.linearizes_acts`).
-/

namespace PowerfarmKernel

/-! ### Projectors -/

section Projectors

variable {σ : Type}

/-- A deterministic projector: where it starts, and what it makes of one more Act. -/
structure Projector (σ : Type) where
  hash : String
  initial : σ
  apply : σ → Act → σ

/-- Fold a causal linearization supplied by the caller. -/
def project (acts : List Act) (projector : Projector σ) : σ :=
  acts.foldl projector.apply projector.initial

/-- A projected state, with the projector and the cut it is a projection of. -/
structure Materialization (σ : Type) where
  state : σ
  projectorHash : String
  historyCut : Cut

/-- Rebuild a materialization from the Acts of a cut. -/
def rebuild (acts : List Act) (projector : Projector σ) (historyCut : Cut) : Materialization σ :=
  ⟨project acts projector, projector.hash, historyCut⟩

/-- One Act names the other among its parents. -/
def Act.IsParent (parent act : Act) : Prop := parent.hash ∈ act.parents

instance (parent act : Act) : Decidable (parent.IsParent act) :=
  inferInstanceAs (Decidable (parent.hash ∈ act.parents))

/-- **The causal listings of a set of Acts**: every Act once, after its parents. -/
abbrev CausalListing (S : Set Act) (acts : List Act) : Prop := Dag.Linearizes Act.IsParent S acts

/-- **One Act of a set is an ancestor of another**, along parent links in the set. A set
closed under ancestry has all the ancestors of its Acts. -/
abbrev Act.IsAncestor (S : Set Act) : Act → Act → Prop := Dag.Ancestor Act.IsParent S

/-- **The projector does not see the order of unrelated Acts**: on two Acts of the set
neither of which is an ancestor of the other, its steps commute in every state. -/
def Projector.CommutesOn (projector : Projector σ) (S : Set Act) : Prop :=
  ∀ a ∈ S, ∀ b ∈ S, ¬Act.IsAncestor S a b → ¬Act.IsAncestor S b a →
    ∀ s, projector.apply (projector.apply s a) b = projector.apply (projector.apply s b) a

/-- **Projection is defined by ancestry, not by the listing order.** -/
theorem rebuild_eq_of_linearizes (projector : Projector σ) (S : Set Act)
    (hcomm : projector.CommutesOn S) (acts acts' : List Act) (h : CausalListing S acts)
    (h' : CausalListing S acts') (historyCut : Cut) :
    project acts projector = project acts' projector ∧
      rebuild acts projector historyCut = rebuild acts' projector historyCut := by
  have hproject : project acts projector = project acts' projector :=
    h.foldl_eq hcomm h' projector.initial
  exact ⟨hproject, by rw [rebuild, rebuild, hproject]⟩

end Projectors

/-! ### A projector that needs the ancestry -/

namespace Sample

/-- An Act of the genesis identity, after the given parents. -/
def child (hash : Hash) (parents : List Hash) : Act :=
  { genesis "" with hash := hash, parents := parents }

/-- Two Acts after genesis that do not know of each other, and one that knows both. -/
def diamond : List Act := [genesis "", child "a" ["0000"], child "b" ["0000"], child "c" ["a", "b"]]

/-- The other listing of the same Acts. -/
def diamond' : List Act :=
  [genesis "", child "b" ["0000"], child "a" ["0000"], child "c" ["a", "b"]]

/-- **The height of every Act above genesis.** Its steps do not commute on an Act and its
parent. -/
def height : Projector (Hash → ℕ) where
  hash := "height"
  initial := fun _ => 0
  apply heights act := Function.update heights act.hash
    (1 + (act.parents.map heights).foldr max 0)

/-- A step of `height` reads the heights of the parents only. -/
theorem height_apply_update (heights : Hash → ℕ) (n : ℕ) {a : Act} {h : Hash}
    (hne : h ∉ a.parents) : (height.apply (Function.update heights h n) a) a.hash
      = height.apply heights a a.hash := by
  have hparents : a.parents.map (Function.update heights h n) = a.parents.map heights :=
    List.map_congr_left fun p hp => Function.update_of_ne (ne_of_mem_of_not_mem hp hne) n heights
  simp only [height, Function.update_self, hparents]

/-- `height` commutes on Acts of different hashes that are not each other's parents. -/
theorem height_comm {heights : Hash → ℕ} {a b : Act} (hne : a.hash ≠ b.hash)
    (hab : ¬a.IsParent b) (hba : ¬b.IsParent a) :
    height.apply (height.apply heights a) b = height.apply (height.apply heights b) a := by
  have hb := height_apply_update heights (height.apply heights a a.hash) hab
  have ha := height_apply_update heights (height.apply heights b b.hash) hba
  simp only [height, Function.update_self] at ha hb ⊢
  rw [ha, hb, Function.update_comm hne]

/-- Both listings of the diamond are causal. -/
theorem causalListing_diamond : CausalListing {a | a ∈ diamond} diamond where
  mem _ := Iff.rfl
  nodup := by decide
  parents := Runs.forall_made_iff.mpr (show ∀ i (h : i < diamond.length), ∀ p ∈ diamond,
    p.IsParent diamond[i] → p ∈ diamond.take i by decide)

theorem causalListing_diamond' : CausalListing {a | a ∈ diamond} diamond' where
  mem a := (List.Perm.swap _ _ [child "c" ["a", "b"]]).cons (genesis "") |>.mem_iff
  nodup := by decide
  parents := Runs.forall_made_iff.mpr (show ∀ i (h : i < diamond'.length), ∀ p ∈ diamond,
    p.IsParent diamond'[i] → p ∈ diamond'.take i by decide)

/-- Acts of one hash in the diamond are one Act, so `height` commutes where the diamond
allows it. -/
theorem height_commutesOn : height.CommutesOn {a | a ∈ diamond} := by
  have hhash : ∀ a ∈ diamond, ∀ b ∈ diamond, a.hash = b.hash → a = b := by decide
  intro a ha b hb hab hba heights
  by_cases heq : a = b
  · rw [heq]
  · exact height_comm (fun h => heq (hhash a ha b hb h))
      (fun h => hab (.single ⟨ha, h⟩)) (fun h => hba (.single ⟨hb, h⟩))

/-- The two listings of the diamond give every Act one height. -/
theorem rebuild_diamond : rebuild diamond height {"c"} = rebuild diamond' height {"c"} :=
  (rebuild_eq_of_linearizes height {a | a ∈ diamond} height_commutesOn diamond diamond'
    causalListing_diamond causalListing_diamond' {"c"}).2

end Sample

/-! ### The order of commits is a causal listing -/

namespace Gate

variable {P : Primitives} {known : MemoryLedger → String → String → Cut → Bool}
  {s : MemoryLedger} {c : Submission} {a : Act}

/-- The Acts of history. -/
def history (s : MemoryLedger) : Set Act := {a | a ∈ s.acts.values}

/-- **History stands in causal order**: every Act under its own hash, its parents stored,
and all Acts listed after their parents. -/
structure InOrder (s : MemoryLedger) : Prop where
  keyed : ∀ k a, s.acts.get? k = some a → a.hash = k
  rooted : Rooted s
  listing : CausalListing (history s) s.acts.values

/-- An Act of an ordered history stands under its hash. -/
theorem InOrder.get? (h : InOrder s) (ha : a ∈ history s) : s.acts.get? a.hash = some a := by
  obtain ⟨k, hk⟩ := Dict.mem_values_iff.mp ha
  rw [h.keyed k a hk]
  exact hk

/-- **An admitted Act goes to the end of the listing.** It is nobody's parent: what is named
as a parent is stored, and its hash was not. -/
theorem InOrder.admits (h : InOrder s) (ha : Admits P known s c a) :
    InOrder (Gate.step P known s c) := by
  have hfresh : a.hash ∉ s.acts.keys := Dict.get?_eq_none_iff.mp ha.fresh
  have hvalues : (Gate.step P known s c).acts.values = s.acts.values ++ [a] := by
    rw [ha.placed.acts, Dict.values_set_of_notMem hfresh]
  have hhistory : history (Gate.step P known s c) = insert a (history s) := by
    ext b
    rw [history, hvalues]
    simp [history, or_comm]
  refine ⟨?_, h.rooted.step c, ?_⟩
  · intro k b hb
    rcases ha.get?_iff.mp hb with ⟨rfl, rfl⟩ | hold
    · rfl
    · exact h.keyed k b hold
  · rw [hvalues, hhistory]
    refine h.listing.concat ?_ ?_ ?_
    · intro hmem
      exact hfresh (Dict.mem_keys_of_get? (h.get? hmem))
    · intro b hb hparent
      have hclosed := h.rooted.closed a.hash b.hash ⟨b, h.get? hb, hparent⟩
      exact hfresh (hclosed (Dict.mem_keys_of_get? (h.get? hb)))
    · intro hself
      exact hfresh (ha.parentOf_new ⟨a, ha.stored, hself⟩)

/-- **Every run keeps history in causal order.** -/
theorem InOrder.exec (h : InOrder s) (calls : List Submission) :
    InOrder (Gate.exec P known s calls) := by
  refine Runs.exec_inv (fun s c h => ?_) h calls
  rcases step_cases P known s c with hsame | ⟨a, ha⟩
  · have hacts : (Gate.step P known s c).acts = s.acts := hsame.acts
    refine ⟨by rw [hacts]; exact h.keyed, h.rooted.step c, ?_⟩
    rw [history, hacts]
    exact h.listing
  · exact h.admits ha

/-- **A projection of all history is the one in commit order**: whatever calls are made of
the gate, from a history in causal order, any causal listing of the Acts that then stand in
history is projected to the same state. -/
theorem project_history {σ : Type} (projector : Projector σ) (hs : InOrder s)
    (calls : List Submission) (hcomm : projector.CommutesOn (history (Gate.exec P known s calls)))
    (acts : List Act) (h : CausalListing (history (Gate.exec P known s calls)) acts) :
    project acts projector = project (Gate.exec P known s calls).acts.values projector :=
  h.foldl_eq hcomm (hs.exec calls).listing projector.initial

end Gate

end PowerfarmKernel
