import BlockLang.Proofs.Run.Conformance
import BlockLang.Proofs.Run.Outcomes
import BlockLang.Proofs.Value.Equality
import Mathlib.Data.List.Lex
import Mathlib.Data.String.Basic

/-!
# Comparisons

`==` is an equivalence and decides between any two values; `<` and `>` are the two directions of one strict order that
is total on each of the ordered types.  Both follow from the keys of values: values that are not lists are equal if they
are of one type and have one key, and values of one ordered type are ordered as their keys are.  A switch compares with
`==`.

## Main definitions

- `Operation.Holds`: an operator finds that two values are related.
- `Operation.Lawful`: the laws of comparisons.
- `Eval.Passes`, `Eval.Selects`: how a switch goes through its arms.

## Main statement

- `comparison_lawful`
-/

namespace BlockLang

/-! ## §1 The order of keys -/

/-- Characters are ordered by their scalar values. -/
theorem scalarValues_strictMono : StrictMono (List.map Char.toNat) :=
  fun _ _ => List.map_lt fun _ _ h => h

namespace Value

theorem key_integer_lt {m n : Int} : (integer m).key < (integer n).key ↔ m < n := by
  simp [key, List.cons_lt_cons_iff]

theorem key_decimal_lt {a b : Decimal} : (decimal a).key < (decimal b).key ↔ a.value < b.value := by
  simp [key, List.cons_lt_cons_iff]

theorem key_character_lt {c d : Char} : (character c).key < (character d).key ↔ c.toNat < d.toNat := by
  simp [key, List.cons_lt_cons_iff]

theorem key_string_lt {s t : String} : (string s).key < (string t).key ↔ s < t := by
  have hmono : StrictMono (List.map fun c : Char => (c.toNat : ℚ)) :=
    fun _ _ => List.map_lt fun _ _ h => Nat.cast_lt.mpr h
  exact hmono.lt_iff_lt.trans String.lt_iff_toList_lt.symm

end Value

namespace Operation

variable {h : Heap} {op : Operator} {u v w : Value} {offset : Nat}

/-! ## §2 Equality -/

/-- An operator finds that two values are in its relation. -/
def Holds (h : Heap) (op : Operator) (v w : Value) : Prop :=
  ∀ offset, binary h op v w offset = .ok (.boolean true)

theorem holds_equal_iff : Holds h .equal v w ↔ h.same v w = true := by
  constructor
  · intro hholds
    have hresult : (.ok (.boolean (h.same v w)) : Except RunError Value) = .ok (.boolean true) := hholds 0
    cases hsame : h.same v w with
    | true => rfl
    | false =>
      rw [hsame] at hresult
      cases hresult
  · intro hsame offset
    exact congrArg (Except.ok ∘ Value.boolean) hsame

/-! ## §3 Order -/

/-- An outcome of a comparison is told by its two strict cases. -/
theorem compares_of_iff {o : Ordering} {x y : List ℚ} (hlt : o = .lt ↔ x < y) (hgt : o = .gt ↔ y < x) :
    o.Compares x y := by
  cases o with
  | lt => exact hlt.mp rfl
  | gt => exact hgt.mp rfl
  | eq =>
    have hle : ¬ y < x := fun hless => nomatch hgt.mpr hless
    have hge : ¬ x < y := fun hless => nomatch hlt.mpr hless
    exact le_antisymm (not_lt.mp hle) (not_lt.mp hge)

/-- Values of one ordered type are ordered as their keys are. -/
theorem order_eq_ok (offset : Nat) (hkind : v.kind = w.kind) (hordered : v.kind.isOrdered = true) :
    ∃ o, order v w offset = .ok o ∧ o.Compares v.key w.key := by
  cases v <;> cases hordered <;> cases w <;> cases hkind
  case integer m n =>
    exact ⟨compare m n, rfl, compares_of_iff (compare_lt_iff_lt.trans Value.key_integer_lt.symm)
      (compare_gt_iff_gt.trans Value.key_integer_lt.symm)⟩
  case decimal a b =>
    exact ⟨a.order b, rfl, compares_of_iff (Decimal.order_eq_lt_iff.trans Value.key_decimal_lt.symm)
      (Decimal.order_eq_gt_iff.trans Value.key_decimal_lt.symm)⟩
  case character c d =>
    exact ⟨compare c.toNat d.toNat, rfl, compares_of_iff (compare_lt_iff_lt.trans Value.key_character_lt.symm)
      (compare_gt_iff_gt.trans Value.key_character_lt.symm)⟩
  case string s t =>
    have hcompare : textOrder s t = compare s t := rfl
    exact ⟨compare s t, hcompare ▸ rfl, compares_of_iff (compare_lt_iff_lt.trans Value.key_string_lt.symm)
      (compare_gt_iff_gt.trans Value.key_string_lt.symm)⟩

/-- No other values are ordered. -/
theorem order_eq_error (offset : Nat) (hkinds : ¬ (v.kind = w.kind ∧ v.kind.isOrdered = true)) :
    order v w offset = .error (.typeFault (.unordered v.kind w.kind) offset) := by
  cases v <;> cases w <;> first | rfl | exact absurd ⟨rfl, rfl⟩ hkinds

/-- What `<` and `>` look for. -/
def sought : Operator → Option Ordering
  | .less => some .lt
  | .greater => some .gt
  | _ => none

/-- `<` and `>` ask for the order of two values. -/
theorem binary_of_sought {o : Ordering} (hop : sought op = some o) :
    binary h op v w offset = (order v w offset).map fun found => .boolean (found == o) := by
  cases op <;> cases hop
  all_goals
    change (order v w offset >>= _) = _
    cases order v w offset <;> rfl

/-- `<` and `>` succeed exactly on two values of one ordered type. -/
theorem binary_eq_ok_iff {o : Ordering} (hop : sought op = some o) :
    (∃ r, binary h op v w offset = .ok r) ↔ v.kind = w.kind ∧ v.kind.isOrdered = true := by
  rw [binary_of_sought hop]
  by_cases hkinds : v.kind = w.kind ∧ v.kind.isOrdered = true
  · obtain ⟨found, horder, -⟩ := order_eq_ok offset hkinds.1 hkinds.2
    rw [horder]
    exact ⟨fun _ => hkinds, fun _ => ⟨_, rfl⟩⟩
  · rw [order_eq_error offset hkinds]
    exact ⟨nofun, fun h => absurd h hkinds⟩

/-- `<` and `>` hold of two values of one ordered type whose keys have the order that is looked for. -/
theorem holds_iff_compares {o : Ordering} (hop : sought op = some o) :
    Holds h op v w ↔ v.kind = w.kind ∧ v.kind.isOrdered = true ∧ o.Compares v.key w.key := by
  constructor
  · intro hholds
    have hkinds := (binary_eq_ok_iff hop).mp ⟨_, hholds 0⟩
    obtain ⟨found, horder, hcompares⟩ := order_eq_ok 0 hkinds.1 hkinds.2
    have hfound := hholds 0
    rw [binary_of_sought hop, horder] at hfound
    simp only [Except.map, Except.ok.injEq, Value.boolean.injEq, beq_iff_eq] at hfound
    exact ⟨hkinds.1, hkinds.2, hfound ▸ hcompares⟩
  · rintro ⟨hkind, hordered, hcompares⟩ offset
    obtain ⟨found, horder, hcompares'⟩ := order_eq_ok offset hkind hordered
    rw [binary_of_sought hop, horder, hcompares'.inj hcompares]
    simp [Except.map]

theorem holds_less_iff : Holds h .less v w ↔ v.kind = w.kind ∧ v.kind.isOrdered = true ∧ v.key < w.key :=
  holds_iff_compares (o := .lt) rfl

theorem holds_greater_iff : Holds h .greater v w ↔ v.kind = w.kind ∧ v.kind.isOrdered = true ∧ w.key < v.key :=
  holds_iff_compares (o := .gt) rfl

/-! ## §4 Laws -/

/-- The laws of comparisons. -/
structure Lawful (h : Heap) : Prop where
  decides (v w : Value) : ∃ r, ∀ offset, binary h .equal v w offset = .ok (.boolean r) ∧
    binary h .notEqual v w offset = .ok (.boolean !r)
  refl {v : Value} (hv : h.Grounded v) : Holds h .equal v v
  symm {v w : Value} : Holds h .equal v w → Holds h .equal w v
  trans {u v w : Value} : Holds h .equal u v → Holds h .equal v w → Holds h .equal u w
  lists {a : ListRef} (ha : h.Grounded (.list a)) (b : ListRef) :
    Holds h .equal (.list a) (.list b) ↔ List.Forall₂ (Holds h .equal) (h.elements a) (h.elements b)
  decimals (a b : Decimal) : Holds h .equal (.decimal a) (.decimal b) ↔ a.value = b.value
  others {v w : Value} (hlist : v.kind ≠ .list) (hdecimal : v.kind ≠ .decimal) : Holds h .equal v w ↔ v = w
  ordered {op : Operator} (hop : op = .less ∨ op = .greater) (v w : Value) (offset : Nat) :
    (∃ r, binary h op v w offset = .ok r) ↔ v.kind = w.kind ∧ v.kind.isOrdered = true
  trichotomy {v w : Value} (hkind : v.kind = w.kind) (hordered : v.kind.isOrdered = true) :
    (Holds h .less v w ∧ ¬ Holds h .equal v w ∧ ¬ Holds h .greater v w) ∨
    (¬ Holds h .less v w ∧ Holds h .equal v w ∧ ¬ Holds h .greater v w) ∨
    (¬ Holds h .less v w ∧ ¬ Holds h .equal v w ∧ Holds h .greater v w)
  converse {v w : Value} : Holds h .less v w ↔ Holds h .greater w v
  less_trans {u v w : Value} : Holds h .less u v → Holds h .less v w → Holds h .less u w
  less_iff {v w : Value} : Holds h .less v w ↔ v.kind = w.kind ∧ v.kind.isOrdered = true ∧ v.key < w.key
  strings (s t : String) :
    Holds h .less (.string s) (.string t) ↔ List.Lex (· < ·) (s.toList.map Char.toNat) (t.toList.map Char.toNat)

theorem equality_decides (v w : Value) : ∃ r, ∀ offset, binary h .equal v w offset = .ok (.boolean r) ∧
    binary h .notEqual v w offset = .ok (.boolean !r) :=
  ⟨h.same v w, fun _ => ⟨rfl, rfl⟩⟩

theorem holds_equal_list_iff {a : ListRef} (ha : h.Grounded (.list a)) (b : ListRef) :
    Holds h .equal (.list a) (.list b) ↔ List.Forall₂ (Holds h .equal) (h.elements a) (h.elements b) := by
  rw [holds_equal_iff, ha.same_list_iff]
  exact ⟨fun h => h.imp fun _ _ => holds_equal_iff.mpr, fun h => h.imp fun _ _ => holds_equal_iff.mp⟩

/-- Apart from lists and decimals, values are equal only to themselves. -/
theorem holds_equal_iff_eq (hlist : v.kind ≠ .list) (hdecimal : v.kind ≠ .decimal) : Holds h .equal v w ↔ v = w := by
  rw [holds_equal_iff]
  cases v with
  | list => exact absurd rfl hlist
  | decimal => exact absurd rfl hdecimal
  | nil | boolean | integer | character | string => cases w <;> simp [Heap.same, Heap.sameWithin]

/-- Two values of one ordered type are related in exactly one way, which is how their keys are. -/
theorem holds_trichotomy (hkind : v.kind = w.kind) (hordered : v.kind.isOrdered = true) :
    (Holds h .less v w ∧ ¬ Holds h .equal v w ∧ ¬ Holds h .greater v w) ∨
    (¬ Holds h .less v w ∧ Holds h .equal v w ∧ ¬ Holds h .greater v w) ∨
    (¬ Holds h .less v w ∧ ¬ Holds h .equal v w ∧ Holds h .greater v w) := by
  have hlist : v.kind ≠ .list := by
    intro hlist
    rw [hlist] at hordered
    cases hordered
  have hless : Holds h .less v w ↔ v.key < w.key := by simp [holds_less_iff, hkind, hkind ▸ hordered]
  have hequal : Holds h .equal v w ↔ v.key = w.key := by
    rw [holds_equal_iff, Heap.same_iff_key hlist, and_iff_right hkind]
  have hgreater : Holds h .greater v w ↔ w.key < v.key := by simp [holds_greater_iff, hkind, hkind ▸ hordered]
  rw [hless, hequal, hgreater]
  obtain hlt | heq | hgt := lt_trichotomy v.key w.key
  · exact Or.inl ⟨hlt, hlt.ne, hlt.asymm⟩
  · exact Or.inr (Or.inl ⟨heq.not_lt, heq, heq.not_gt⟩)
  · exact Or.inr (Or.inr ⟨hgt.asymm, hgt.ne', hgt⟩)

/-- `<` and `>` are two directions of one order. -/
theorem holds_less_iff_greater : Holds h .less v w ↔ Holds h .greater w v := by
  rw [holds_less_iff, holds_greater_iff]
  constructor
  · rintro ⟨hkind, hordered, hkey⟩
    exact ⟨hkind.symm, hkind ▸ hordered, hkey⟩
  · rintro ⟨hkind, hordered, hkey⟩
    exact ⟨hkind.symm, hkind ▸ hordered, hkey⟩

theorem holds_less_trans (huv : Holds h .less u v) (hvw : Holds h .less v w) : Holds h .less u w := by
  obtain ⟨hkind, hordered, hkey⟩ := holds_less_iff.mp huv
  obtain ⟨hkind', -, hkey'⟩ := holds_less_iff.mp hvw
  exact holds_less_iff.mpr ⟨hkind.trans hkind', hordered, hkey.trans hkey'⟩

/-- Strings are ordered by the scalar values of their characters. -/
theorem holds_less_string_iff (s t : String) : Holds h .less (.string s) (.string t) ↔
    List.Lex (· < ·) (s.toList.map Char.toNat) (t.toList.map Char.toNat) := by
  have hmap := scalarValues_strictMono.lt_iff_lt (a := s.toList) (b := t.toList)
  rw [holds_less_iff, Value.key_string_lt, String.lt_iff_toList_lt, ← hmap]
  exact ⟨fun h => h.2.2, fun h => ⟨rfl, rfl, h⟩⟩

theorem lawful (h : Heap) : Lawful h where
  decides := equality_decides
  refl hv := holds_equal_iff.mpr hv.same_refl
  symm hvw := holds_equal_iff.mpr (Heap.same_symm (holds_equal_iff.mp hvw))
  trans huv hvw := holds_equal_iff.mpr (Heap.same_trans (holds_equal_iff.mp huv) (holds_equal_iff.mp hvw))
  lists := holds_equal_list_iff
  decimals _ _ := holds_equal_iff.trans Decimal.same_iff
  others := holds_equal_iff_eq
  ordered hop _ _ _ := by obtain rfl | rfl := hop <;> exact binary_eq_ok_iff rfl
  trichotomy := holds_trichotomy
  converse := holds_less_iff_greater
  less_trans := holds_less_trans
  less_iff := holds_less_iff
  strings := holds_less_string_iff

end Operation

namespace Eval

open Stateful

/-! ## §5 Switches -/

variable {eval : Expr → Eval Value} {subject : Value} {s t u : Store} {cases : List Case}

/-- From store to store, the values of arms are evaluated one after the other, and the subject equals none of them. -/
inductive Passes (eval : Expr → Eval Value) (subject : Value) : List Case → Store → Store → Prop
  | nil (s : Store) : Passes eval subject [] s s
  | default {offset : Nat} {body : List Statement} {rest : List Case} {s t : Store}
      (hrest : Passes eval subject rest s t) :
    Passes eval subject (.mk offset none body :: rest) s t
  | value {offset : Nat} {e : Expr} {v : Value} {body : List Statement} {rest : List Case} {s t u : Store}
      (hvalue : eval e s = .ok v u) (hequal : ¬ Operation.Holds u.heap .equal subject v)
      (hrest : Passes eval subject rest u t) :
    Passes eval subject (.mk offset (some e) body :: rest) s t

/-- The statements of the first arm without a value. -/
def fallback? : List Case → Option (List Statement)
  | [] => none
  | .mk _ none body :: _ => some body
  | .mk _ (some _) _ :: rest => fallback? rest

/-- How a switch selects the statements to execute: those of the first arm whose value the subject equals, or those to
fall back to if it equals none. -/
inductive Selects (eval : Expr → Eval Value) (subject : Value) (fallback : Option (List Statement)) (cases : List Case)
    (s : Store) : Option (List Statement) → Store → Prop
  | arm {before after : List Case} {offset : Nat} {e : Expr} {v : Value} {body : List Statement} {t u : Store}
      (hsplit : cases = before ++ .mk offset (some e) body :: after) (hbefore : Passes eval subject before s u)
      (hvalue : eval e u = .ok v t) (hequal : Operation.Holds t.heap .equal subject v) :
    Selects eval subject fallback cases s (some body) t
  | fallback {t : Store} (hall : Passes eval subject cases s t) :
    Selects eval subject fallback cases s (fallback.or (fallback? cases)) t

/-- Evaluating the value of an arm decides whether its statements are selected. -/
theorem select_of_value {fallback : Option (List Statement)} {offset : Nat} {e : Expr} {v : Value}
    {body : List Statement} (rest : List Case) (hvalue : eval e s = .ok v t) :
    select eval subject fallback (.mk offset (some e) body :: rest) s =
      if t.heap.same v subject then .ok (some body) t else select eval subject fallback rest t := by
  rw [select, bind_of_ok hvalue, get_bind]
  split <;> rfl

theorem holds_equal_iff_same {h : Heap} {v : Value} : Operation.Holds h .equal subject v ↔ h.same v subject = true := by
  rw [Operation.holds_equal_iff, Heap.same_comm]

/-- Arms whose values the subject does not equal only leave something to fall back to. -/
theorem select_append {before : List Case} (hbefore : Passes eval subject before s u)
    (fallback : Option (List Statement)) (after : List Case) :
    select eval subject fallback (before ++ after) s =
      select eval subject (fallback.or (fallback? before)) after u := by
  induction hbefore generalizing fallback with
  | nil s => rw [List.nil_append, fallback?, Option.or_none]
  | default _ ih =>
    rw [List.cons_append, select, ih, fallback?, Option.or_assoc]
    rfl
  | value hvalue hequal _ ih =>
    rw [List.cons_append, select_of_value _ hvalue, if_neg (mt holds_equal_iff_same.mpr hequal), ih, fallback?]

/-- What is selected behind an arm without a value, which is something to fall back to. -/
theorem Selects.default {fallback selected : Option (List Statement)} {offset : Nat} {body : List Statement}
    (hrest : Selects eval subject (fallback.or (some body)) cases s selected t) :
    Selects eval subject fallback (.mk offset none body :: cases) s selected t := by
  cases hrest with
  | arm hsplit hbefore hvalue hequal =>
    subst hsplit
    exact .arm rfl (.default hbefore) hvalue hequal
  | fallback hall =>
    have hfallback : Selects eval subject fallback (.mk offset none body :: cases) s (fallback.or (some body)) t :=
      .fallback (.default hall)
    rwa [Option.or_assoc]

/-- What is selected behind an arm whose value the subject does not equal. -/
theorem Selects.value {fallback selected : Option (List Statement)} {offset : Nat} {e : Expr} {v : Value}
    {body : List Statement} (hvalue : eval e s = .ok v u) (hequal : ¬ Operation.Holds u.heap .equal subject v)
    (hrest : Selects eval subject fallback cases u selected t) :
    Selects eval subject fallback (.mk offset (some e) body :: cases) s selected t := by
  cases hrest with
  | arm hsplit hbefore hvalue' hequal' =>
    subst hsplit
    exact .arm rfl (.value hvalue hequal hbefore) hvalue' hequal'
  | fallback hall => exact .fallback (.value hvalue hequal hall)

/-- A switch selects the first arm whose value the subject equals. -/
theorem select_eq_ok_iff {fallback selected : Option (List Statement)} :
    select eval subject fallback cases s = .ok selected t ↔ Selects eval subject fallback cases s selected t := by
  constructor
  · intro h
    -- Along the arms: what has been passed so far is in the store and in what there is to fall back to.
    induction cases generalizing fallback s with
    | nil =>
      obtain ⟨rfl, rfl⟩ := pure_eq_ok.mp h
      have hfallback : Selects eval subject fallback [] s (fallback.or (fallback? [])) s := .fallback (.nil s)
      rwa [fallback?, Option.or_none] at hfallback
    | cons c rest ih =>
      obtain ⟨offset, value, body⟩ := c
      cases value with
      | none => exact (ih h).default
      | some e =>
        obtain ⟨v, u, hvalue, -⟩ := bind_eq_ok.mp h
        rw [select_of_value rest hvalue] at h
        split at h
        next hsame =>
          cases h
          exact .arm rfl (.nil s) hvalue (holds_equal_iff_same.mpr hsame)
        next hsame => exact (ih h).value hvalue (mt holds_equal_iff_same.mp hsame)
  · rintro (⟨rfl, hbefore, hvalue, hequal⟩ | hall)
    · rw [select_append hbefore, select_of_value _ hvalue, if_pos (holds_equal_iff_same.mp hequal)]
    · have hselect := select_append hall fallback []
      rw [cases.append_nil] at hselect
      exact hselect.trans rfl

end Eval

/-- Comparisons are lawful, and a switch selects by `==`. -/
theorem comparison_lawful (h : Heap) : Operation.Lawful h ∧
    ∀ (eval : Expr → Eval Value) (subject : Value) (cases : List Case) (s t : Store)
      (selected : Option (List Statement)),
      Eval.select eval subject none cases s = .ok selected t ↔ Eval.Selects eval subject none cases s selected t :=
  ⟨Operation.lawful h, fun _ _ _ _ _ _ => Eval.select_eq_ok_iff⟩

/-- `[[1.0]]` and `[[1]]`. -/
def nestedLists : Heap :=
  ⟨#[[.decimal ⟨10, 1⟩], [.list 0], [.decimal ⟨1, 0⟩], [.list 2]]⟩

theorem grounded_nestedLists (v : Value) : nestedLists.Grounded v := by
  refine (Heap.Regular.of_earlier fun (a : Nat) v hv b hb => ?_).acyclic.grounded v
  subst hb
  have hsize : (a : Nat) < 4 := Heap.PointsTo.lt_size hv
  obtain rfl | rfl | rfl | rfl : a = 0 ∨ a = 1 ∨ a = 2 ∨ a = 3 := by omega
  all_goals simp_all [nestedLists, Heap.elements]

/-- Lists are equal if they are nested alike and hold decimals that stand for the same numbers. -/
theorem comparison_lawful_nested : nestedLists.Grounded (.list 1) ∧ nestedLists.Grounded (.list 0) ∧
    Operation.Holds nestedLists .equal (.list 1) (.list 1) ∧
    Operation.Holds nestedLists .equal (.list 1) (.list 3) := by
  have hlawful := (comparison_lawful nestedLists).1
  have houter := grounded_nestedLists (.list 1)
  have hinner := grounded_nestedLists (.list 0)
  have hdecimals : Operation.Holds nestedLists .equal (.decimal ⟨10, 1⟩) (.decimal ⟨1, 0⟩) :=
    (hlawful.decimals _ _).mpr (Decimal.same_iff.mp (by decide))
  have hlists : Operation.Holds nestedLists .equal (.list 0) (.list 2) :=
    (hlawful.lists hinner 2).mpr (.cons hdecimals .nil)
  exact ⟨houter, hinner, hlawful.refl houter, (hlawful.lists houter 3).mpr (.cons hlists .nil)⟩

end BlockLang
