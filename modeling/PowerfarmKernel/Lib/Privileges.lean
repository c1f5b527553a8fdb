import Mathlib.Data.List.Induction

/-!
# Privileges

The privileges of a database are what a list of statements leaves: objects are created and
dropped, rights granted and revoked, one by one or for all objects of a class, rights given by
default to the objects created later, and rows secured by policies
(`Privileges.Catalog.apply`). Roles, objects, actions and classes are parameters.

A right that is held was given by one of the statements, or was there before them
(`Privileges.Catalog.given_of_mem`): what no statement gives is refused, in whatever order they
ran. Where the rows of an object are secured, a right is good for those its policies let
through (`Privileges.Catalog.Admits`).
-/

namespace Privileges

/-- A right: a role may do something with an object. -/
structure Right (ρ ο α : Type) where
  role : ρ
  object : ο
  action : α
deriving DecidableEq

/-- A policy that lets roles do something with every row of an object. -/
structure Policy (ρ ο α : Type) where
  name : String
  object : ο
  actions : List α
  roles : List ρ
deriving DecidableEq

/-- **A statement about privileges.** -/
inductive Statement (ρ ο α κ : Type) where
  /-- An object is created, unless it is there, with what every new one of its kind has. -/
  | create (object : ο) (builtin : List (ρ × α)) : Statement ρ ο α κ
  | drop (object : ο) : Statement ρ ο α κ
  | grant (actions : List α) (objects : List ο) (roles : List ρ) : Statement ρ ο α κ
  | revoke (actions : List α) (objects : List ο) (roles : List ρ) : Statement ρ ο α κ
  /-- Rights are revoked on all objects of a class. -/
  | revokeAll (actions : List α) (cls : κ) (roles : List ρ) : Statement ρ ο α κ
  /-- Rights are given by default to the objects of a class that are created later. -/
  | defaultGrant (actions : List α) (cls : κ) (roles : List ρ) : Statement ρ ο α κ
  | defaultRevoke (actions : List α) (cls : κ) (roles : List ρ) : Statement ρ ο α κ
  /-- The rows of an object are secured. -/
  | secure (object : ο) : Statement ρ ο α κ
  | createPolicy (policy : Policy ρ ο α) : Statement ρ ο α κ
  | dropPolicy (name : String) (object : ο) : Statement ρ ο α κ

/-- **What a database knows of privileges.** -/
structure Catalog (ρ ο α κ : Type) where
  objects : List ο
  rights : List (Right ρ ο α)
  defaults : List (κ × ρ × α)
  secured : List ο
  policies : List (Policy ρ ο α)

variable {ρ ο α κ : Type} [DecidableEq ρ] [DecidableEq ο] [DecidableEq α] [DecidableEq κ]
  (classOf : ο → κ)

/-- The rights of some roles to do some things with some objects. -/
def rightsOf (actions : List α) (objects : List ο) (roles : List ρ) : List (Right ρ ο α) :=
  roles.flatMap fun role => objects.flatMap fun object => actions.map fun action =>
    ⟨role, object, action⟩

namespace Catalog

/-- **What a statement leaves.** -/
def apply (cat : Catalog ρ ο α κ) : Statement ρ ο α κ → Catalog ρ ο α κ
  | .create object builtin =>
      if object ∈ cat.objects then cat
      else
        { cat with
          objects := object :: cat.objects
          rights :=
            (builtin ++ (cat.defaults.filter fun d => d.1 = classOf object).map Prod.snd).map
            (fun g => ⟨g.1, object, g.2⟩) ++ cat.rights }
  | .drop object =>
      { cat with
        objects := cat.objects.filter (· ≠ object)
        rights := cat.rights.filter fun r => r.object ≠ object
        secured := cat.secured.filter (· ≠ object)
        policies := cat.policies.filter fun p => p.object ≠ object }
  | .grant actions objects roles =>
      { cat with rights := rightsOf actions objects roles ++ cat.rights }
  | .revoke actions objects roles =>
      { cat with
        rights := cat.rights.filter fun r =>
          ¬(r.action ∈ actions ∧ r.object ∈ objects ∧ r.role ∈ roles) }
  | .revokeAll actions cls roles =>
      { cat with
        rights := cat.rights.filter fun r =>
          ¬(r.action ∈ actions ∧ classOf r.object = cls ∧ r.role ∈ roles) }
  | .defaultGrant actions cls roles =>
      { cat with
        defaults := (roles.flatMap fun role => actions.map fun action => (cls, role, action)) ++
          cat.defaults }
  | .defaultRevoke actions cls roles =>
      { cat with
        defaults := cat.defaults.filter fun d =>
          ¬(d.2.2 ∈ actions ∧ d.1 = cls ∧ d.2.1 ∈ roles) }
  | .secure object => { cat with secured := object :: cat.secured }
  | .createPolicy policy => { cat with policies := policy :: cat.policies }
  | .dropPolicy name object =>
      { cat with policies := cat.policies.filter fun p => ¬(p.name = name ∧ p.object = object) }

/-- What a list of statements leaves. -/
def applyAll (cat : Catalog ρ ο α κ) (statements : List (Statement ρ ο α κ)) : Catalog ρ ο α κ :=
  statements.foldl (apply classOf) cat

/-- **One of some roles may do something with an object.** -/
def May (cat : Catalog ρ ο α κ) (roles : List ρ) (object : ο) (action : α) : Prop :=
  ∃ role ∈ roles, ⟨role, object, action⟩ ∈ cat.rights

instance (cat : Catalog ρ ο α κ) (roles : List ρ) (object : ο) (action : α) :
    Decidable (cat.May roles object action) :=
  inferInstanceAs (Decidable (∃ role ∈ roles, ⟨role, object, action⟩ ∈ cat.rights))

/-- **The rows of an object are open to some roles**: they are not secured, or a policy lets one
of the roles through. -/
def Admits (cat : Catalog ρ ο α κ) (roles : List ρ) (object : ο) (action : α) : Prop :=
  object ∈ cat.secured → ∃ p ∈ cat.policies, p.object = object ∧ action ∈ p.actions ∧
    ∃ role ∈ roles, role ∈ p.roles

instance (cat : Catalog ρ ο α κ) (roles : List ρ) (object : ο) (action : α) :
    Decidable (cat.Admits roles object action) :=
  inferInstanceAs (Decidable (object ∈ cat.secured → ∃ p ∈ cat.policies, p.object = object ∧
    action ∈ p.actions ∧ ∃ role ∈ roles, role ∈ p.roles))

/-- A right is held, or will be where its object is created. -/
def Can (cat : Catalog ρ ο α κ) (r : Right ρ ο α) : Prop :=
  r ∈ cat.rights ∨ (classOf r.object, r.role, r.action) ∈ cat.defaults

instance (cat : Catalog ρ ο α κ) : DecidablePred (cat.Can classOf) := fun r =>
  inferInstanceAs (Decidable (r ∈ cat.rights ∨ (classOf r.object, r.role, r.action) ∈ cat.defaults))

end Catalog

/-- **A statement gives a right**, at once or by default. -/
def Statement.Gives : Statement ρ ο α κ → Right ρ ο α → Prop
  | .create object builtin, r => r.object = object ∧ (r.role, r.action) ∈ builtin
  | .grant actions objects roles, r => r ∈ rightsOf actions objects roles
  | .defaultGrant actions cls roles, r =>
      r.action ∈ actions ∧ classOf r.object = cls ∧ r.role ∈ roles
  | _, _ => False

instance (r : Right ρ ο α) : DecidablePred fun s : Statement ρ ο α κ => s.Gives classOf r
  | .create object builtin =>
      inferInstanceAs (Decidable (r.object = object ∧ (r.role, r.action) ∈ builtin))
  | .grant actions objects roles => inferInstanceAs (Decidable (r ∈ rightsOf actions objects roles))
  | .defaultGrant actions cls roles =>
      inferInstanceAs (Decidable (r.action ∈ actions ∧ classOf r.object = cls ∧ r.role ∈ roles))
  | .drop _ => isFalse id
  | .revoke _ _ _ => isFalse id
  | .revokeAll _ _ _ => isFalse id
  | .defaultRevoke _ _ _ => isFalse id
  | .secure _ => isFalse id
  | .createPolicy _ => isFalse id
  | .dropPolicy _ _ => isFalse id

namespace Catalog

variable {classOf} {cat : Catalog ρ ο α κ} {s : Statement ρ ο α κ} {r : Right ρ ο α}
  {statements : List (Statement ρ ο α κ)} {roles : List ρ} {object : ο} {action : α}

/-- **A statement leaves no right that was not there or that it gives.** -/
theorem Can.of_apply (h : (cat.apply classOf s).Can classOf r) :
    cat.Can classOf r ∨ s.Gives classOf r := by
  cases s with
  | create object builtin =>
    rw [apply] at h
    split at h
    · exact Or.inl h
    · rcases h with h | h
      · rcases List.mem_append.mp h with h | h
        · obtain ⟨g, hg, rfl⟩ := List.mem_map.mp h
          rcases List.mem_append.mp hg with hg | hg
          · exact Or.inr ⟨rfl, hg⟩
          · -- The right comes from a default of the object's class.
            obtain ⟨d, hd, rfl⟩ := List.mem_map.mp hg
            obtain ⟨hd, hcls⟩ := List.mem_filter.mp hd
            exact Or.inl (Or.inr ((of_decide_eq_true hcls) ▸ hd))
        · exact Or.inl (Or.inl h)
      · exact Or.inl (Or.inr h)
  | drop object => exact Or.inl (h.imp_left fun h => (List.mem_filter.mp h).1)
  | grant actions objects roles =>
    rcases h with h | h
    · exact (List.mem_append.mp h).symm.imp_left Or.inl
    · exact Or.inl (Or.inr h)
  | revoke actions objects roles => exact Or.inl (h.imp_left fun h => (List.mem_filter.mp h).1)
  | revokeAll actions cls roles => exact Or.inl (h.imp_left fun h => (List.mem_filter.mp h).1)
  | defaultGrant actions cls roles =>
    rcases h with h | h
    · exact Or.inl (Or.inl h)
    · rcases List.mem_append.mp h with h | h
      · obtain ⟨role, hrole, h⟩ := List.mem_flatMap.mp h
        obtain ⟨action, haction, heq⟩ := List.mem_map.mp h
        cases heq
        exact Or.inr ⟨haction, rfl, hrole⟩
      · exact Or.inl (Or.inr h)
  | defaultRevoke actions cls roles =>
    exact Or.inl (h.imp_right fun h => (List.mem_filter.mp h).1)
  | secure object => exact Or.inl h
  | createPolicy policy => exact Or.inl h
  | dropPolicy name object => exact Or.inl h

/-- **A right that is held was given** by one of the statements, or was there before them. -/
theorem given_of_mem (h : (cat.applyAll classOf statements).Can classOf r) :
    cat.Can classOf r ∨ ∃ s ∈ statements, s.Gives classOf r := by
  induction statements using List.reverseRecOn with
  | nil => exact Or.inl h
  | append_singleton statements s ih =>
    rw [applyAll, List.foldl_append] at h
    rcases Can.of_apply h with h | h
    · rcases ih h with h | ⟨s', hs', hgives⟩
      · exact Or.inl h
      · exact Or.inr ⟨s', List.mem_append_left _ hs', hgives⟩
    · exact Or.inr ⟨s, List.mem_append_right _ (List.mem_singleton_self s), h⟩

end Catalog

end Privileges
