import BlockLang.Proofs.Aligned
import BlockLang.Proofs.Typing.Lexical
import BlockLang.Typing.SideTable

/-!
# Growing side tables

Checking never takes an entry of a side table back.  It records entries under the ids of the tree it checks, at most
one of each kind for each id; since the ids of a program are distinct, an entry is still what its id finds at the end.
-/

namespace BlockLang

/-! ## §1 Growing association lists -/

/-- `l'` has every entry of `l`, and further entries only under the given keys, at most one for each. -/
structure Extends {α : Type} (keys : List Nat) (l l' : List (Nat × α)) : Prop where
  subset : l ⊆ l'
  count_le (k : Nat) : (l'.map Prod.fst).count k ≤ (l.map Prod.fst).count k + keys.count k

namespace Extends

variable {α : Type} {keys more : List Nat} {l m n : List (Nat × α)}

theorem refl (keys : List Nat) (l : List (Nat × α)) : Extends keys l l :=
  ⟨List.Subset.refl l, fun _ => Nat.le_add_right _ _⟩

theorem trans (h : Extends keys l m) (h' : Extends more m n) : Extends (keys ++ more) l n := by
  refine ⟨List.Subset.trans h.subset h'.subset, fun k => ?_⟩
  have hk := h.count_le k
  have hk' := h'.count_le k
  rw [List.count_append]
  omega

/-- The order of the keys does not matter. -/
theorem perm (h : Extends keys l m) (hp : keys.Perm more) : Extends more l m :=
  ⟨h.subset, fun k => hp.count_eq k ▸ h.count_le k⟩

theorem cons (k : Nat) (a : α) (l : List (Nat × α)) : Extends [k] l ((k, a) :: l) := by
  refine ⟨List.subset_cons_self _ _, fun k' => ?_⟩
  exact Nat.le_of_eq (by rw [List.map_cons, List.count_cons, List.count_singleton])

/-- From nothing on, distinct keys get distinct entries. -/
theorem nodup (h : Extends keys [] l) (hkeys : keys.Nodup) : (l.map Prod.fst).Nodup := by
  -- Counting entries per key turns "at most one for each" into arithmetic.
  rw [List.nodup_iff_count] at hkeys ⊢
  intro k
  have hk := h.count_le k
  rw [List.map_nil, List.count_nil, Nat.zero_add] at hk
  exact Nat.le_trans hk (hkeys k)

end Extends

namespace SideTable

/-! ## §2 Growing tables -/

/-- A table got entries under the given ids. -/
structure Grows (ids : List Nat) (u u' : SideTable) : Prop where
  types : Extends ids u.types u'.types
  vars : Extends ids u.vars u'.vars
  funs : Extends ids u.funs u'.funs

namespace Grows

variable {ids more : List Nat} {u v w : SideTable}

theorem refl (ids : List Nat) (u : SideTable) : Grows ids u u :=
  ⟨.refl _ _, .refl _ _, .refl _ _⟩

theorem trans (h : Grows ids u v) (h' : Grows more v w) : Grows (ids ++ more) u w :=
  ⟨h.types.trans h'.types, h.vars.trans h'.vars, h.funs.trans h'.funs⟩

theorem perm (h : Grows ids u v) (hp : ids.Perm more) : Grows more u v :=
  ⟨h.types.perm hp, h.vars.perm hp, h.funs.perm hp⟩

theorem setType (u : SideTable) (id : Nat) (τ : Ty) : Grows [id] u (u.setType id τ) :=
  ⟨.cons _ _ _, .refl _ _, .refl _ _⟩

theorem setVariable (u : SideTable) (id : Nat) (v : VariableInfo) : Grows [id] u (u.setVariable id v) :=
  ⟨.refl _ _, .cons _ _ _, .refl _ _⟩

theorem setFunction (u : SideTable) (id : Nat) (f : FunctionInfo) : Grows [id] u (u.setFunction id f) :=
  ⟨.refl _ _, .refl _ _, .cons _ _ _⟩

/-- An access gets a variable and a type. -/
theorem setAccess (u : SideTable) (id : Nat) (v : VariableInfo) (τ : Ty) :
    Grows [id] u ((u.setVariable id v).setType id τ) :=
  ⟨.cons _ _ _, .cons _ _ _, .refl _ _⟩

/-- A call gets a function and a type. -/
theorem setCall (u : SideTable) (id : Nat) (f : FunctionInfo) (τ : Ty) :
    Grows [id] u ((u.setFunction id f).setType id τ) :=
  ⟨.cons _ _ _, .refl _ _, .cons _ _ _⟩

end Grows

/-! ## §3 What a table still knows -/

/-- Every entry of `u` is what `t` has under its id. -/
structure Keeps (t u : SideTable) : Prop where
  types {id : Nat} {τ : Ty} : (id, τ) ∈ u.types → t.type? id = some τ
  vars {id : Nat} {v : VariableInfo} : (id, v) ∈ u.vars → t.findVariable? id = some v
  funs {id : Nat} {f : FunctionInfo} : (id, f) ∈ u.funs → t.findFunction? id = some f

variable {ids : List Nat} {t u v : SideTable}

/-- What is known of a table is known of every table it has grown from. -/
theorem Keeps.of_grows (h : t.Keeps v) (hgrows : Grows ids u v) : t.Keeps u :=
  ⟨fun hmem => h.types (hgrows.types.subset hmem), fun hmem => h.vars (hgrows.vars.subset hmem),
    fun hmem => h.funs (hgrows.funs.subset hmem)⟩

/-- A table that got its entries under distinct ids finds every one of them. -/
theorem keeps_self (h : Grows ids .empty t) (hids : ids.Nodup) : t.Keeps t :=
  ⟨lookup_of_mem (h.types.nodup hids), lookup_of_mem (h.vars.nodup hids), lookup_of_mem (h.funs.nodup hids)⟩

theorem Keeps.type? {id : Nat} {τ : Ty} (h : t.Keeps (u.setType id τ)) : t.type? id = some τ :=
  h.types List.mem_cons_self

theorem Keeps.findVariable? {id : Nat} {v : VariableInfo} (h : t.Keeps (u.setVariable id v)) :
    t.findVariable? id = some v :=
  h.vars List.mem_cons_self

theorem Keeps.findFunction? {id : Nat} {f : FunctionInfo} (h : t.Keeps (u.setFunction id f)) :
    t.findFunction? id = some f :=
  h.funs List.mem_cons_self

end SideTable

end BlockLang
