import Mathlib.Data.List.Forall2

/-!
# Association lists side by side

Static frames, runtime frames and the names of a block are association lists with the same keys in the same order.
Looking up a key in two such lists finds related entries in both or an entry in neither.
-/

namespace BlockLang

variable {κ α β γ δ : Type}

/-- Two association lists have the same keys in the same order, and entries under one key are related. -/
def Aligned (R : α → β → Prop) (l : List (κ × α)) (m : List (κ × β)) : Prop :=
  List.Forall₂ (fun x y => x.1 = y.1 ∧ R x.2 y.2) l m

namespace Aligned

variable {R S : α → β → Prop} {l : List (κ × α)} {m : List (κ × β)}

theorem nil : Aligned R ([] : List (κ × α)) [] := List.Forall₂.nil

theorem cons {k : κ} {a : α} {b : β} (hab : R a b) (h : Aligned R l m) : Aligned R ((k, a) :: l) ((k, b) :: m) :=
  List.Forall₂.cons ⟨rfl, hab⟩ h

theorem mono (h : Aligned R l m) (hRS : ∀ a b, R a b → S a b) : Aligned S l m :=
  List.Forall₂.imp (fun _ _ hxy => ⟨hxy.1, hRS _ _ hxy.2⟩) h

/-- A key is found in both lists or in neither. -/
theorem lookup [BEq κ] (h : Aligned R l m) (k : κ) : Option.Rel R (l.lookup k) (m.lookup k) := by
  unfold Aligned at h
  induction h with
  | nil => exact .none
  | @cons x y l m hxy _ ih =>
    obtain ⟨key, a⟩ := x
    obtain ⟨key', b⟩ := y
    obtain ⟨rfl, hab⟩ := hxy
    rw [List.lookup_cons, List.lookup_cons]
    -- The keys at the head are the same, so both lists find it there or both go on.
    cases k == key with
    | true => exact .some hab
    | false => exact ih

theorem lookup_eq_none_iff [BEq κ] (h : Aligned R l m) (k : κ) : l.lookup k = none ↔ m.lookup k = none := by
  have hrel := h.lookup k
  generalize l.lookup k = x at hrel
  generalize m.lookup k = y at hrel
  cases hrel <;> simp

/-- The entries under one key may be changed as long as they stay related. -/
theorem map_key [DecidableEq κ] {k : κ} {f : α → α} (h : Aligned R l m)
    (hf : ∀ a b, (k, b) ∈ m → R a b → R (f a) b) :
    Aligned R (l.map fun (n, a) => if n = k then (n, f a) else (n, a)) m := by
  unfold Aligned at h
  induction h with
  | nil => exact nil
  | @cons x y l m hxy _ ih =>
    obtain ⟨key, a⟩ := x
    obtain ⟨key', b⟩ := y
    obtain ⟨rfl, hab⟩ := hxy
    have htail := ih fun a b hmem => hf a b (List.mem_cons_of_mem _ hmem)
    simp only [List.map_cons]
    by_cases hk : key = k
    · subst hk
      rw [if_pos rfl]
      exact cons (hf a b List.mem_cons_self hab) htail
    · rw [if_neg hk]
      exact cons hab htail

end Aligned

theorem exists_of_mem_left {R : α → β → Prop} {l : List α} {m : List β} {a : α} (h : List.Forall₂ R l m) (ha : a ∈ l) :
    ∃ b ∈ m, R a b := by
  induction h with
  | nil => cases ha
  | @cons x y l m hxy _ ih =>
    rcases List.mem_cons.mp ha with rfl | hmem
    · exact ⟨y, List.mem_cons_self, hxy⟩
    · obtain ⟨b, hb, hab⟩ := ih hmem
      exact ⟨b, List.mem_cons_of_mem _ hb, hab⟩

/-- The first result along two lists whose items give related results at each place. -/
theorem findSome?_rel {R : γ → δ → Prop} {f : α → Option γ} {g : β → Option δ} {l : List α} {m : List β}
    (h : List.Forall₂ (fun a b => Option.Rel R (f a) (g b)) l m) :
    Option.Rel R (l.findSome? f) (m.findSome? g) := by
  induction h with
  | nil => exact .none
  | @cons a b l m hab _ ih =>
    rw [List.findSome?_cons, List.findSome?_cons]
    generalize f a = x at hab
    generalize g b = y at hab
    cases hab with
    | none => exact ih
    | some hrel => exact .some hrel

/-- An entry of an association list whose keys are distinct is what its key finds. -/
theorem lookup_of_mem [BEq κ] [LawfulBEq κ] {l : List (κ × α)} {k : κ} {a : α} (hl : (l.map Prod.fst).Nodup)
    (h : (k, a) ∈ l) : l.lookup k = some a := by
  induction l with
  | nil => cases h
  | cons x l ih =>
    obtain ⟨key, b⟩ := x
    rw [List.map_cons, List.nodup_cons] at hl
    rcases List.mem_cons.mp h with heq | hmem
    · cases heq
      simp
    -- The key occurs further on, so it is not the key at the head.
    · have hne : (k == key) = false := by
        rw [beq_eq_false_iff_ne]
        rintro rfl
        exact hl.1 (List.mem_map.mpr ⟨(k, a), hmem, rfl⟩)
      rw [List.lookup_cons, hne]
      exact ih hl.2 hmem

/-- A key is not found exactly if no entry has it. -/
theorem lookup_eq_none_iff_notMem [BEq κ] [LawfulBEq κ] {l : List (κ × α)} {k : κ} :
    l.lookup k = none ↔ k ∉ l.map Prod.fst := by
  rw [List.lookup_eq_none_iff, List.mem_map, not_exists]
  refine forall_congr' fun x => ?_
  rw [not_and]
  exact imp_congr_right fun _ => by rw [bne_iff_ne, ne_comm, ne_eq]

/-- What a key finds is an entry of the list. -/
theorem mem_of_lookup [BEq κ] [LawfulBEq κ] {l : List (κ × α)} {k : κ} {a : α} (h : l.lookup k = some a) :
    (k, a) ∈ l := by
  obtain ⟨before, after, rfl, -⟩ := List.lookup_eq_some_iff.mp h
  simp

end BlockLang
