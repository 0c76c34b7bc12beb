import BlockLang.Proofs.Decimal.Exact
import BlockLang.Proofs.Value.Containment
import Mathlib.Data.List.Forall2

/-!
# Equality of values

Values other than lists are equal if they are of one type and stand for the same; lists are equal if their elements are
equal one by one.  To whatever depth lists are compared, equality is symmetric and transitive; it is reflexive as long
as the bound is not reached, which is so for values that lead to no cycle.

## Main definitions

- `Value.key`: what values other than lists are compared by.

## Main statements

- `Heap.sameWithin_iff`: equality, to a depth.
- `Heap.same_symm`, `Heap.same_trans`, `Heap.Grounded.same_refl`: equality is an equivalence.
- `Heap.Grounded.same_list_iff`: lists are equal element by element.
-/

namespace BlockLang

/-! ## §1 Keys -/

/-- What a value is compared by if it is not a list: the number that it stands for, or the scalar values of its
characters. -/
def Value.key : Value → List ℚ
  | nil | list _ => []
  | boolean b => [if b then 1 else 0]
  | integer n => [(n : ℚ)]
  | decimal d => [d.value]
  | character c => [(c.toNat : ℚ)]
  | string s => s.toList.map fun c => (c.toNat : ℚ)

/-- Different characters have different scalar values. -/
theorem scalarValue_injective : Function.Injective fun c : Char => (c.toNat : ℚ) :=
  fun _ _ h => Char.toNat_inj.mp (Nat.cast_injective h)

namespace Heap

variable {h : Heap} {n : Nat} {u v w : Value} {a b : ListRef}

/-! ## §2 Equality to a depth -/

theorem allSame_iff {same : Value → Value → Bool} {as bs : List Value} :
    allSame same as bs = true ↔ List.Forall₂ (fun v w => same v w = true) as bs := by
  induction as generalizing bs with
  | nil => cases bs <;> simp [allSame]
  | cons v as ih => cases bs <;> simp [allSame, ih]

theorem sameWithin_list : h.sameWithin (n + 1) (.list a) (.list b) = true ↔
    List.Forall₂ (fun v w => h.sameWithin n v w = true) (h.elements a) (h.elements b) :=
  allSame_iff

/-- Values that are not both lists are equal if they are of one type and have one key. -/
theorem sameWithin_iff_key (hv : v.kind ≠ .list) :
    h.sameWithin n v w = true ↔ v.kind = w.kind ∧ v.key = w.key := by
  have hstring : ∀ {s t : List Char}, s.map (fun c => (c.toNat : ℚ)) = t.map (fun c => (c.toNat : ℚ)) ↔ s = t :=
    scalarValue_injective.list_map.eq_iff
  cases v with
  | list => exact absurd rfl hv
  | nil => cases w <;> simp [sameWithin, Value.kind, Value.key]
  | boolean b => cases w <;> cases b <;> simp [sameWithin, Value.kind, Value.key]
  | integer m => cases w <;> simp [sameWithin, Value.kind, Value.key]
  | decimal d => cases w <;> simp [sameWithin, Value.kind, Value.key, Decimal.same_iff]
  | character c => cases w <;> simp [sameWithin, Value.kind, Value.key, Char.toNat_inj]
  | string s => cases w <;> simp [sameWithin, Value.kind, Value.key, hstring, String.toList_inj]

/-- Equality, to a depth: it compares keys, or else lists element by element. -/
theorem sameWithin_iff : h.sameWithin n v w = true ↔
    (v.kind ≠ .list ∧ v.kind = w.kind ∧ v.key = w.key) ∨
      ∃ a b m, v = .list a ∧ w = .list b ∧ n = m + 1 ∧
        List.Forall₂ (fun v w => h.sameWithin m v w = true) (h.elements a) (h.elements b) := by
  by_cases hv : v.kind = .list
  · cases v <;> cases hv
    cases w with
    | list b => cases n <;> simp [sameWithin, allSame_iff, Value.kind]
    | nil | boolean | integer | decimal | character | string => simp [sameWithin, Value.kind]
  · rw [sameWithin_iff_key hv]
    constructor
    · exact fun hkey => Or.inl ⟨hv, hkey⟩
    · rintro (⟨-, hkey⟩ | ⟨a, -, -, rfl, -⟩)
      · exact hkey
      · exact absurd rfl hv

theorem sameWithin_symm (hsame : h.sameWithin n v w = true) : h.sameWithin n w v = true := by
  -- The bound goes down with every list that is entered, whatever the lists are, so the induction is on it.
  induction n using Nat.strong_induction_on generalizing v w with
  | _ n ih =>
    obtain ⟨hv, hkind, hkey⟩ | ⟨a, b, m, rfl, rfl, rfl, hall⟩ := sameWithin_iff.mp hsame
    · exact sameWithin_iff.mpr (Or.inl ⟨hkind ▸ hv, hkind.symm, hkey.symm⟩)
    · exact sameWithin_list.mpr (hall.imp fun _ _ => ih m m.lt_succ_self).flip

/-- If a relation is transitive, so is being related element by element. -/
theorem forall₂_trans {r : Value → Value → Prop} (hr : ∀ u v w, r u v → r v w → r u w) {us vs ws : List Value}
    (huv : List.Forall₂ r us vs) (hvw : List.Forall₂ r vs ws) : List.Forall₂ r us ws := by
  induction huv generalizing ws with
  | nil => exact hvw
  | cons huv _ ih =>
    cases hvw with
    | cons hvw hrest => exact .cons (hr _ _ _ huv hvw) (ih hrest)

theorem sameWithin_trans (huv : h.sameWithin n u v = true) (hvw : h.sameWithin n v w = true) :
    h.sameWithin n u w = true := by
  induction n using Nat.strong_induction_on generalizing u v w with
  | _ n ih =>
    obtain ⟨hu, hkind, hkey⟩ | ⟨a, b, m, rfl, rfl, rfl, hab⟩ := sameWithin_iff.mp huv
    · obtain ⟨hkind', hkey'⟩ := (sameWithin_iff_key (hkind ▸ hu)).mp hvw
      exact (sameWithin_iff_key hu).mpr ⟨hkind.trans hkind', hkey.trans hkey'⟩
    · -- The value in the middle is a list, so the last one is a list as well.
      obtain ⟨hlist, -, -⟩ | ⟨b', c, m', hb', rfl, hm, hbc⟩ := sameWithin_iff.mp hvw
      · exact absurd rfl hlist
      · cases hb'
        cases hm
        refine sameWithin_list.mpr (forall₂_trans (fun _ _ _ huv hvw => ?_) hab hbc)
        exact ih m m.lt_succ_self huv hvw

/-- A value equals itself if lists are compared as deep as they are nested in it. -/
theorem Grounded.sameWithin_refl (hv : h.Grounded v) (hn : v.kind = .list → h.valueHeight v < n) :
    h.sameWithin n v v = true := by
  induction n generalizing v with
  | zero =>
    have hlist : v.kind ≠ .list := fun hlist => Nat.not_lt_zero _ (hn hlist)
    exact (sameWithin_iff_key hlist).mpr ⟨rfl, rfl⟩
  | succ n ih =>
    cases v with
    | list a =>
      refine sameWithin_list.mpr (List.forall₂_same.mpr fun v hmem => ?_)
      exact ih (hv.of_mem hmem) (hv.valueHeight_lt (hn rfl) hmem)
    | nil | boolean | integer | decimal | character | string =>
      exact (sameWithin_iff_key (by rintro ⟨⟩)).mpr ⟨rfl, rfl⟩

/-! ## §3 Equality -/

theorem Grounded.same_refl (hv : h.Grounded v) : h.same v v = true :=
  hv.sameWithin_refl fun _ => h.valueHeight_lt_depthBound v

theorem same_symm (hsame : h.same v w = true) : h.same w v = true :=
  sameWithin_symm hsame

theorem same_comm (h : Heap) (v w : Value) : h.same v w = h.same w v :=
  Bool.eq_iff_iff.mpr ⟨same_symm, same_symm⟩

theorem same_trans (huv : h.same u v = true) (hvw : h.same v w = true) : h.same u w = true :=
  sameWithin_trans huv hvw

theorem same_iff_key (hv : v.kind ≠ .list) : h.same v w = true ↔ v.kind = w.kind ∧ v.key = w.key :=
  sameWithin_iff_key hv

/-- Lists are equal if their elements are, one by one. -/
theorem Grounded.same_list_iff (ha : h.Grounded (.list a)) : h.same (.list a) (.list b) = true ↔
    List.Forall₂ (fun v w => h.same v w = true) (h.elements a) (h.elements b) := by
  rw [ha.same_list b, allSame_iff]

end Heap

end BlockLang
