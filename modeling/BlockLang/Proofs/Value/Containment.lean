import BlockLang.Value.Heap
import Mathlib.Data.Finset.Card
import Mathlib.Logic.Relation

/-!
# Lists within lists

Lists point to the lists among their elements.  As long as no list is reached from itself, every list has a height,
the number of lists that are reached from it; the height falls with every step from a list to an element, and there
are never more lists than the bound that comparing, printing and searching look through.  So these three do what the
plain recursion over elements does, and that recursion ends.

A heap is kept regular by creating lists from values that exist, and by storing values from which the list that takes
them is not reached.

## Main statements

- `Heap.Acyclic.contains_iff`: searching finds exactly the lists that are reached.
- `Heap.Grounded.same_list`, `Heap.Grounded.display_list`: comparing and printing look through all depths.
- `Heap.onCycle_setElement_iff`: when storing an element closes a cycle.
- `Heap.Regular.allocate`, `Heap.Regular.setElement`: what keeps a heap regular.
-/

namespace BlockLang

open Relation

/-! ## §1 The graph of lists -/

/-- A value refers at most to the first `n` lists. -/
def Value.Below (n : Nat) (v : Value) : Prop :=
  ∀ a, v = .list a → a < n

namespace Value.Below

variable {n m : Nat}

theorem mono {v : Value} (h : v.Below n) (hle : n ≤ m) : v.Below m :=
  fun a ha => Nat.lt_of_lt_of_le (h a ha) hle

theorem list {a : ListRef} (h : a < n) : (Value.list a).Below n := by
  intro b hb
  cases hb
  exact h

/-- Only lists refer to lists. -/
theorem of_kind {v : Value} (h : v.kind ≠ .list) : v.Below n := by
  rintro a rfl
  exact absurd rfl h

end Value.Below

namespace Heap

variable {h : Heap} {a b l : ListRef} {v : Value}

/-- A list has another one among its elements. -/
def PointsTo (h : Heap) (a b : ListRef) : Prop :=
  Value.list b ∈ h.elements a

/-- A list can be reached from itself. -/
def OnCycle (h : Heap) (a : ListRef) : Prop :=
  TransGen h.PointsTo a a

/-- No list can be reached from itself. -/
def Acyclic (h : Heap) : Prop :=
  ∀ a, ¬ h.OnCycle a

/-- A list is a value itself or can be reached from it. -/
def LeadsTo (h : Heap) (v : Value) (target : ListRef) : Prop :=
  ∃ a, v = .list a ∧ ReflTransGen h.PointsTo a target

@[simp] theorem leadsTo_list : h.LeadsTo (.list a) l ↔ ReflTransGen h.PointsTo a l := by
  simp [LeadsTo]

/-- No list that a value leads to can be reached from itself. -/
def Grounded (h : Heap) (v : Value) : Prop :=
  ∀ l, h.LeadsTo v l → ¬ h.OnCycle l

theorem Acyclic.grounded (hacyclic : h.Acyclic) (v : Value) : h.Grounded v :=
  fun l _ => hacyclic l

namespace Grounded

theorem not_onCycle (hgrounded : h.Grounded (.list a)) : ¬ h.OnCycle a :=
  hgrounded a (leadsTo_list.mpr .refl)

/-- What a value leads to, its elements lead to. -/
theorem of_mem (hgrounded : h.Grounded (.list a)) (hv : v ∈ h.elements a) : h.Grounded v := by
  rintro l ⟨b, rfl, hpath⟩
  exact hgrounded l (leadsTo_list.mpr (hpath.head hv))

end Grounded

/-- Only lists that have been created have elements. -/
theorem PointsTo.lt_size (hab : h.PointsTo a b) : a < h.lists.size := by
  by_contra hsize
  simp [PointsTo, elements, Array.getD_eq_getD_getElem?, Array.getElem?_eq_none (Nat.le_of_not_lt hsize)] at hab

/-! ## §2 Heights -/

open Classical in
/-- The lists that a list is or leads to. -/
noncomputable def reach (h : Heap) (a : ListRef) : Finset ListRef :=
  (Finset.range h.lists.size).filter fun b => ReflTransGen h.PointsTo a b

theorem mem_reach : b ∈ h.reach a ↔ b < h.lists.size ∧ ReflTransGen h.PointsTo a b := by
  simp [reach]

/-- The number of the lists that a list is or leads to. -/
noncomputable def height (h : Heap) (a : ListRef) : Nat :=
  (h.reach a).card

theorem height_lt_depthBound (h : Heap) (a : ListRef) : h.height a < h.depthBound := by
  have hle : h.height a ≤ (Finset.range h.lists.size).card :=
    Finset.card_le_card fun b hb => Finset.mem_range.mpr (mem_reach.mp hb).1
  rw [Finset.card_range] at hle
  exact Nat.lt_succ_of_le hle

/-- The step from a list to an element goes down. -/
theorem height_lt (ha : ¬ h.OnCycle a) (hab : h.PointsTo a b) : h.height b < h.height a := by
  refine Finset.card_lt_card ⟨fun c hc => ?_, fun hsub => ?_⟩
  · obtain ⟨hsize, hpath⟩ := mem_reach.mp hc
    exact mem_reach.mpr ⟨hsize, hpath.head hab⟩
  · -- The list itself is not reached from its elements.
    have hself : a ∈ h.reach b := hsub (mem_reach.mpr ⟨hab.lt_size, .refl⟩)
    exact ha (TransGen.head' hab (mem_reach.mp hself).2)

theorem Acyclic.height_lt (hacyclic : h.Acyclic) (hab : h.PointsTo a b) : h.height b < h.height a :=
  Heap.height_lt (hacyclic a) hab

/-- If some measure goes down with every step, no steps lead back to where they began. -/
theorem not_transGen_self_of_rank {r : ListRef → ListRef → Prop} (rank : ListRef → Nat)
    (hrank : ∀ a b, r a b → rank b < rank a) (a : ListRef) : ¬ TransGen r a a := by
  have hdown : ∀ {b}, TransGen r a b → rank b < rank a := by
    intro b hab
    induction hab with
    | single hab => exact hrank _ _ hab
    | tail _ hbc ih => exact (hrank _ _ hbc).trans ih
  exact fun ha => Nat.lt_irrefl _ (hdown ha)

/-- The recursion from a list to its elements ends. -/
theorem Acyclic.wellFounded (hacyclic : h.Acyclic) : WellFounded fun b a => h.PointsTo a b :=
  Subrelation.wf (fun hab => hacyclic.height_lt hab) (InvImage.wf h.height Nat.lt_wfRel.wf)

/-! ## §3 Searching -/

theorem leadsTo_of_reaches {n : Nat} (hreaches : h.reaches l n v = true) : h.LeadsTo v l := by
  induction n generalizing v with
  | zero => simp [reaches] at hreaches
  | succ n ih =>
    cases v with
    | list a =>
      simp only [reaches, Bool.or_eq_true, decide_eq_true_eq, List.any_eq_true] at hreaches
      rcases hreaches with rfl | ⟨w, hw, hreaches⟩
      · exact ⟨a, rfl, .refl⟩
      · obtain ⟨b, rfl, hb⟩ := ih hreaches
        exact ⟨a, rfl, hb.head hw⟩
    | nil | boolean | integer | decimal | character | string => simp [reaches] at hreaches

/-- A search that may look as deep as the list is high finds what is there. -/
theorem Acyclic.reaches_of_leadsTo (hacyclic : h.Acyclic) {n : Nat} (hn : h.height a < n)
    (hpath : ReflTransGen h.PointsTo a l) : h.reaches l n (.list a) = true := by
  induction hpath using ReflTransGen.head_induction_on generalizing n with
  | refl =>
    cases n with
    | zero => omega
    | succ n => simp [reaches]
  | head hab _ ih =>
    cases n with
    | zero => omega
    | succ n =>
      have hb := ih (Nat.lt_of_lt_of_le (hacyclic.height_lt hab) (Nat.le_of_lt_succ hn))
      simp only [reaches, Bool.or_eq_true, List.any_eq_true]
      exact Or.inr ⟨_, hab, hb⟩

/-- Searching finds exactly the lists that are the value or reached from it. -/
theorem Acyclic.contains_iff (hacyclic : h.Acyclic) (v : Value) (l : ListRef) :
    h.contains v l = true ↔ h.LeadsTo v l := by
  refine ⟨leadsTo_of_reaches, ?_⟩
  rintro ⟨a, rfl, hpath⟩
  exact hacyclic.reaches_of_leadsTo (h.height_lt_depthBound a) hpath

/-- Searching is the recursion over elements, without a bound. -/
theorem Acyclic.contains_list (hacyclic : h.Acyclic) (a l : ListRef) :
    h.contains (.list a) l = (decide (a = l) || (h.elements a).any fun v => h.contains v l) := by
  rw [Bool.eq_iff_iff, hacyclic.contains_iff, leadsTo_list, ReflTransGen.cases_head_iff]
  simp only [Bool.or_eq_true, decide_eq_true_eq, List.any_eq_true, hacyclic.contains_iff]
  -- The first step of a path goes to an element.
  refine or_congr_right ⟨fun ⟨b, hb, hpath⟩ => ⟨.list b, hb, b, rfl, hpath⟩, ?_⟩
  rintro ⟨_, hv, b, rfl, hpath⟩
  exact ⟨b, hv, hpath⟩

/-! ## §4 Comparing and printing -/

theorem allSame_congr {f g : Value → Value → Bool} {as bs : List Value} (hfg : ∀ a ∈ as, ∀ b, f a b = g a b) :
    allSame f as bs = allSame g as bs := by
  induction as generalizing bs with
  | nil => cases bs <;> rfl
  | cons a as ih =>
    cases bs with
    | nil => rfl
    | cons b bs =>
      simp only [allSame, hfg a List.mem_cons_self, ih fun a' ha' => hfg a' (List.mem_cons_of_mem a ha')]

/-- How deep a value is nested. -/
noncomputable def valueHeight (h : Heap) : Value → Nat
  | .list a => h.height a
  | _ => 0

theorem valueHeight_lt_depthBound (h : Heap) (v : Value) : h.valueHeight v < h.depthBound := by
  cases v with
  | list a => exact h.height_lt_depthBound a
  | nil | boolean | integer | decimal | character | string => exact Nat.succ_pos _

/-- Elements are nested less deep than their list. -/
theorem Grounded.valueHeight_lt (ha : h.Grounded (.list a)) {n : Nat} (hn : h.height a < n + 1)
    (hv : v ∈ h.elements a) (hlist : v.kind = .list) : h.valueHeight v < n := by
  cases v with
  | list b => exact Nat.lt_of_lt_of_le (height_lt ha.not_onCycle hv) (Nat.le_of_lt_succ hn)
  | nil | boolean | integer | decimal | character | string => cases hlist

/-- Comparing does not depend on the bound once it is large enough. -/
theorem Grounded.sameWithin_eq {n m : Nat} {v : Value} (hv : h.Grounded v) (w : Value)
    (hn : v.kind = .list → h.valueHeight v < n) (hm : v.kind = .list → h.valueHeight v < m) :
    h.sameWithin n v w = h.sameWithin m v w := by
  induction n generalizing m v w with
  | zero =>
    cases v with
    | list a => exact absurd (hn rfl) (Nat.not_lt_zero _)
    | nil | boolean | integer | decimal | character | string => cases w <;> simp [sameWithin]
  | succ n ih =>
    cases v with
    | list a =>
      cases m with
      | zero => exact absurd (hm rfl) (Nat.not_lt_zero _)
      | succ m =>
        cases w with
        | list b =>
          simp only [sameWithin]
          exact allSame_congr fun v hmem w =>
            ih (hv.of_mem hmem) w (hv.valueHeight_lt (hn rfl) hmem) (hv.valueHeight_lt (hm rfl) hmem)
        | nil | boolean | integer | decimal | character | string => simp [sameWithin]
    | nil | boolean | integer | decimal | character | string => cases w <;> simp [sameWithin]

/-- Comparing lists is the recursion over elements, without a bound. -/
theorem Grounded.same_list (ha : h.Grounded (.list a)) (b : ListRef) :
    h.same (.list a) (.list b) = allSame h.same (h.elements a) (h.elements b) := by
  change allSame (h.sameWithin h.lists.size) _ _ = _
  refine allSame_congr fun v hv w => ?_
  exact (ha.of_mem hv).sameWithin_eq w (ha.valueHeight_lt (h.height_lt_depthBound a) hv)
    fun _ => h.valueHeight_lt_depthBound v

theorem Acyclic.same_list (hacyclic : h.Acyclic) (a b : ListRef) :
    h.same (.list a) (.list b) = allSame h.same (h.elements a) (h.elements b) :=
  (hacyclic.grounded _).same_list b

/-- Printing does not depend on the bound once it is large enough. -/
theorem Grounded.displayWithin_eq {n m : Nat} {v : Value} (hv : h.Grounded v)
    (hn : v.kind = .list → h.valueHeight v < n) (hm : v.kind = .list → h.valueHeight v < m) :
    h.displayWithin n v = h.displayWithin m v := by
  induction n generalizing m v with
  | zero =>
    cases v with
    | list a => exact absurd (hn rfl) (Nat.not_lt_zero _)
    | nil | boolean | integer | decimal | character | string => simp [displayWithin]
  | succ n ih =>
    cases v with
    | list a =>
      cases m with
      | zero => exact absurd (hm rfl) (Nat.not_lt_zero _)
      | succ m =>
        simp only [displayWithin]
        rw [List.map_congr_left fun v hmem =>
          ih (hv.of_mem hmem) (hv.valueHeight_lt (hn rfl) hmem) (hv.valueHeight_lt (hm rfl) hmem)]
    | nil | boolean | integer | decimal | character | string => simp [displayWithin]

/-- Printing a list is the recursion over elements, without a bound. -/
theorem Grounded.display_list (ha : h.Grounded (.list a)) :
    h.display (.list a) = "[" ++ ", ".intercalate ((h.elements a).map h.display) ++ "]" := by
  change "[" ++ ", ".intercalate ((h.elements a).map (h.displayWithin h.lists.size)) ++ "]" = _
  rw [List.map_congr_left fun v hv => (ha.of_mem hv).displayWithin_eq
    (ha.valueHeight_lt (h.height_lt_depthBound a) hv) fun _ => h.valueHeight_lt_depthBound v]
  rfl

theorem Acyclic.display_list (hacyclic : h.Acyclic) (a : ListRef) :
    h.display (.list a) = "[" ++ ", ".intercalate ((h.elements a).map h.display) ++ "]" :=
  (hacyclic.grounded _).display_list

/-! ## §5 Cycles -/

/-- The steps from list to list that are possible once a value is among the elements of the list `l`. -/
def PointsToWith (h : Heap) (l : ListRef) (v : Value) (a b : ListRef) : Prop :=
  h.PointsTo a b ∨ a = l ∧ v = .list b

/-- With a value among its elements, the list could be reached from itself. -/
def WouldCycle (h : Heap) (l : ListRef) (v : Value) : Prop :=
  TransGen (h.PointsToWith l v) l l

/-- A value that does not lead to a list may be put into it, and still every step goes down by some measure. -/
theorem Acyclic.exists_rank (hacyclic : h.Acyclic) (hleads : ¬ h.LeadsTo v l) :
    ∃ rank : ListRef → Nat, ∀ a b, h.PointsToWith l v a b → rank b < rank a := by
  -- The lists that lead to `l` are lifted above all others.
  classical
  refine ⟨fun a => h.height a + if ReflTransGen h.PointsTo a l then h.depthBound else 0, fun a b hab => ?_⟩
  rcases hab with hab | ⟨rfl, rfl⟩
  · have hlt := hacyclic.height_lt hab
    by_cases hb : ReflTransGen h.PointsTo b l
    · simp only [if_pos hb, if_pos (hb.head hab)]
      omega
    · simp only [if_neg hb]
      omega
  · have hb := h.height_lt_depthBound b
    rw [leadsTo_list] at hleads
    simp only [if_neg hleads, if_pos ReflTransGen.refl]
    omega

/-- A list comes to be reached from itself exactly by a value that leads to it. -/
theorem Acyclic.wouldCycle_iff (hacyclic : h.Acyclic) (l : ListRef) (v : Value) :
    h.WouldCycle l v ↔ h.LeadsTo v l := by
  constructor
  · intro hcycle
    by_contra hleads
    obtain ⟨rank, hrank⟩ := hacyclic.exists_rank hleads
    exact not_transGen_self_of_rank rank hrank l hcycle
  · rintro ⟨a, rfl, hpath⟩
    exact TransGen.head' (Or.inr ⟨rfl, rfl⟩) (ReflTransGen.mono (fun _ _ => Or.inl) a l hpath)

/-! ## §6 Changes -/

theorem elements_allocate (h : Heap) (vs : List Value) (a : ListRef) :
    (h.allocate vs).2.elements a = if a = h.lists.size then vs else h.elements a := by
  simp only [allocate, elements, Array.getD_eq_getD_getElem?, Array.getElem?_push]
  split <;> rfl

theorem elements_setElement (h : Heap) (l : ListRef) (i : Nat) (v : Value) (a : ListRef) :
    (h.setElement l i v).elements a = if a = l then (h.elements l).set i v else h.elements a := by
  simp only [setElement, elements, Array.getD_eq_getD_getElem?, Array.getElem?_modify]
  by_cases hal : a = l
  · subst hal
    cases h.lists[a]? <;> simp
  · rw [if_neg (Ne.symm hal), if_neg hal]

@[simp] theorem size_allocate (h : Heap) (vs : List Value) : (h.allocate vs).2.lists.size = h.lists.size + 1 :=
  Array.size_push vs

@[simp] theorem size_setElement (h : Heap) (l : ListRef) (i : Nat) (v : Value) :
    (h.setElement l i v).lists.size = h.lists.size :=
  Array.size_modify

/-- Every element after a change is one of before, or it is the value in the list that took it. -/
theorem mem_elements_setElement {i : Nat} {w : Value} (hw : w ∈ (h.setElement l i v).elements a) :
    w ∈ h.elements a ∨ a = l ∧ w = v := by
  rw [elements_setElement] at hw
  split at hw
  next hal =>
    subst hal
    exact (List.mem_or_eq_of_mem_set hw).imp_right fun hwv => ⟨rfl, hwv⟩
  next => exact Or.inl hw

/-- A path to a list does not go through its elements, whatever they become. -/
theorem reflTransGen_setElement (hpath : ReflTransGen h.PointsTo a l) (i : Nat) (v : Value) :
    ReflTransGen (h.setElement l i v).PointsTo a l := by
  induction hpath using ReflTransGen.head_induction_on with
  | refl => exact .refl
  | @head a b hab _ ih =>
    -- Where the path first meets the list it is over; before that its steps are those of other lists.
    by_cases ha : a = l
    · exact ha ▸ .refl
    · refine ReflTransGen.head ?_ ih
      rw [PointsTo, elements_setElement, if_neg ha]
      exact hab

/-- Storing an element at one of its places puts a list on a cycle exactly if the value would. -/
theorem Acyclic.onCycle_setElement_iff (hacyclic : h.Acyclic) {i : Nat} (hi : i < (h.elements l).length) (v : Value) :
    (h.setElement l i v).OnCycle l ↔ h.WouldCycle l v := by
  constructor
  · intro hcycle
    refine TransGen.mono (fun a b hab => ?_) l l hcycle
    exact (mem_elements_setElement hab).imp_right fun ⟨hal, hv⟩ => ⟨hal, hv.symm⟩
  · rw [hacyclic.wouldCycle_iff]
    rintro ⟨b, rfl, hpath⟩
    have hfirst : (h.setElement l i (.list b)).PointsTo l b := by
      simp only [PointsTo, elements_setElement, if_true]
      exact List.mem_set hi _
    exact TransGen.head' hfirst (reflTransGen_setElement hpath i _)

/-- Lists refer only to lists that have been created, and no list is reached from itself. -/
structure Regular (h : Heap) : Prop where
  closed : ∀ a, ∀ v ∈ h.elements a, v.Below h.lists.size
  acyclic : h.Acyclic

namespace Regular

/-- A heap in which every list refers only to earlier ones. -/
theorem of_earlier (hearlier : ∀ a, ∀ v ∈ h.elements a, v.Below a) : h.Regular := by
  refine ⟨fun a v hv b hb => ?_, not_transGen_self_of_rank id fun a b hab => hearlier a _ hab b rfl⟩
  subst hb
  exact (hearlier a _ hv b rfl).trans (PointsTo.lt_size hv)

/-- A list may be created from values that exist. -/
theorem allocate (hregular : h.Regular) {vs : List Value} (hvs : ∀ v ∈ vs, v.Below h.lists.size) :
    (h.allocate vs).2.Regular := by
  have hnew : ∀ a, ∀ v ∈ (h.allocate vs).2.elements a, v.Below h.lists.size := by
    intro a v hv
    rw [elements_allocate] at hv
    split at hv
    · exact hvs v hv
    · exact hregular.closed a v hv
  refine ⟨fun a v hv => (hnew a v hv).mono (by simp), ?_⟩
  -- The new list is above all others, and nothing points to it.
  let rank := fun a => if a = h.lists.size then h.depthBound else h.height a
  refine not_transGen_self_of_rank rank fun a b hab => ?_
  have hb : b ≠ h.lists.size := Nat.ne_of_lt (hnew a _ hab b rfl)
  simp only [PointsTo, elements_allocate] at hab
  simp only [rank, if_neg hb]
  split
  · exact h.height_lt_depthBound b
  next ha =>
    rw [if_neg ha] at hab
    exact hregular.acyclic.height_lt hab

/-- A value may be stored into a list that is not reached from it. -/
theorem setElement (hregular : h.Regular) (i : Nat) (hv : v.Below h.lists.size)
    (hcontains : h.contains v l = false) : (h.setElement l i v).Regular := by
  constructor
  · intro a w hw
    rw [size_setElement]
    rcases mem_elements_setElement hw with hmem | ⟨-, rfl⟩
    · exact hregular.closed a w hmem
    · exact hv
  · have hleads : ¬ h.LeadsTo v l := by
      rw [← hregular.acyclic.contains_iff, hcontains]
      exact Bool.false_ne_true
    obtain ⟨rank, hrank⟩ := hregular.acyclic.exists_rank hleads
    refine not_transGen_self_of_rank rank fun a b hab => hrank a b ?_
    exact (mem_elements_setElement hab).imp_right fun ⟨hal, hbv⟩ => ⟨hal, hbv.symm⟩

end Regular

end Heap

end BlockLang
