import BlockLang.Typing.RuntimeName
import Mathlib.Data.List.Nodup
import Mathlib.Data.List.Perm.Subperm
import Mathlib.Tactic.Push

/-!
# Names handed out to locals

A local gets the mangled name of the program, or that name with the least suffix that nobody has yet.  There are as
many candidates to try as there are names taken and one more, and all candidates differ, so one of them is free and no
name is handed out twice, however many are asked for.

## Main definition

- `LocalNames.handOut`: the names that come out when names are asked for one after the other.

## Main statements

- `LocalNames.fresh_spec`: which name is handed out.
- `LocalNames.handOut_snoc`: which name is handed out after others have been.
- `LocalNames.nodup_handOut`: they are all different.
-/

namespace BlockLang.LocalNames

/-! ## §1 Candidates -/

/-- Candidates with different suffixes are different. -/
theorem candidate_injective (base : String) {j k : Nat} (h : candidate base j = candidate base k) : j = k := by
  have hchars := congrArg String.toList h
  unfold candidate at hchars
  -- A candidate without a suffix is shorter than all others; the digits of a suffix tell the number.
  split at hchars <;> split at hchars
  · omega
  · simp at hchars
  · simp at hchars
  · simp only [String.toList_append, List.append_assoc] at hchars
    have hdigits := List.append_cancel_left (List.append_cancel_left hchars)
    have hnumber := congrArg (fun digits => Nat.ofDigitChars 10 digits 0) hdigits
    simpa [Nat.toString_eq_ofList_toDigits] using hnumber

/-! ## §2 The first free candidate -/

/-- The search ends at a candidate with nothing but taken ones before it; it is free unless all have been taken. -/
theorem firstFree_eq (taken : List String) (base : String) (n k : Nat) :
    ∃ i ≤ n, firstFree taken base n k = candidate base (k + i) ∧
      (∀ j < i, candidate base (k + j) ∈ taken) ∧ (i < n → candidate base (k + i) ∉ taken) := by
  induction n generalizing k with
  | zero => exact ⟨0, Nat.le_refl 0, rfl, nofun, nofun⟩
  | succ n ih =>
    unfold firstFree
    by_cases htaken : candidate base k ∈ taken
    · obtain ⟨i, hi, hfirst, hbefore, hfree⟩ := ih (k + 1)
      have hshift : ∀ j, k + 1 + j = k + (j + 1) := fun j => by omega
      simp only [hshift] at hfirst hbefore hfree
      rw [if_pos (List.contains_iff_mem.mpr htaken)]
      refine ⟨i + 1, Nat.succ_le_succ hi, hfirst, fun j hj => ?_, fun hlt => hfree (Nat.lt_of_succ_lt_succ hlt)⟩
      cases j with
      | zero => exact htaken
      | succ j => exact hbefore j (Nat.lt_of_succ_lt_succ hj)
    · rw [if_neg (mt List.contains_iff_mem.mp htaken)]
      exact ⟨0, Nat.zero_le _, rfl, nofun, fun _ => htaken⟩

/-- Taken names cannot be more candidates than there are taken names. -/
theorem exists_candidate_not_mem (taken : List String) (base : String) :
    ∃ k ≤ taken.length, candidate base k ∉ taken := by
  by_contra hall
  push Not at hall
  have hnodup : ((List.range (taken.length + 1)).map (candidate base)).Nodup :=
    List.Nodup.map (fun _ _ => candidate_injective base) List.nodup_range
  have hsubset : (List.range (taken.length + 1)).map (candidate base) ⊆ taken := by
    intro name hname
    obtain ⟨k, hk, rfl⟩ := List.mem_map.mp hname
    exact hall k (Nat.le_of_lt_succ (List.mem_range.mp hk))
  have hlength := (List.subperm_of_subset hnodup hsubset).length_le
  rw [List.length_map, List.length_range] at hlength
  omega

/-- A name that is handed out is the mangled name with the least suffix that makes it free. -/
theorem fresh_spec (names : LocalNames) (name : String) :
    ∃ k ≤ names.taken.length, (names.fresh name).1 = candidate (mangle name) k ∧
      (names.fresh name).1 ∉ names.taken ∧ ∀ j < k, candidate (mangle name) j ∈ names.taken := by
  obtain ⟨i, hi, hfirst, hbefore, hfree⟩ := firstFree_eq names.taken (mangle name) names.taken.length 0
  simp only [Nat.zero_add] at hfirst hbefore hfree
  have hfresh : (names.fresh name).1 = candidate (mangle name) i := hfirst
  refine ⟨i, hi, hfresh, ?_, hbefore⟩
  rw [hfresh]
  -- The last candidate is free as well, since some candidate is and all before it are not.
  rcases Nat.lt_or_eq_of_le hi with hlt | rfl
  · exact hfree hlt
  · obtain ⟨k, hk, hnot⟩ := exists_candidate_not_mem names.taken (mangle name)
    rcases Nat.lt_or_eq_of_le hk with hlt | rfl
    · exact absurd (hbefore k hlt) hnot
    · exact hnot

/-! ## §3 One name after the other -/

/-- The runtime names that come out when `sources` are asked for one after the other, and what is taken then. -/
def handOut (names : LocalNames) : (sources : List String) → List String × LocalNames
  | [] => ([], names)
  | source :: rest =>
    let (others, last) := handOut (names.fresh source).2 rest
    ((names.fresh source).1 :: others, last)

@[simp]
theorem handOut_nil (names : LocalNames) : names.handOut [] = ([], names) := rfl

/-- What is asked for later does not change what has come out before. -/
theorem handOut_append (names : LocalNames) (sources more : List String) :
    names.handOut (sources ++ more) =
      ((names.handOut sources).1 ++ ((names.handOut sources).2.handOut more).1,
        ((names.handOut sources).2.handOut more).2) := by
  induction sources generalizing names with
  | nil => simp
  | cons source rest ih => simp [handOut, ih]

/-- What has come out is taken, the latest first, and nothing else is. -/
theorem taken_handOut (names : LocalNames) (sources : List String) :
    (names.handOut sources).2.taken = (names.handOut sources).1.reverse ++ names.taken := by
  induction sources generalizing names with
  | nil => simp
  | cons source rest ih => simp [handOut, ih, fresh]

@[simp]
theorem length_handOut (names : LocalNames) (sources : List String) :
    (names.handOut sources).1.length = sources.length := by
  induction sources generalizing names with
  | nil => simp
  | cons source rest ih => simp [handOut, ih]

/-- Names that differ stay so while more are handed out. -/
theorem nodup_taken_handOut (names : LocalNames) (sources : List String) (h : names.taken.Nodup) :
    (names.handOut sources).2.taken.Nodup := by
  induction sources generalizing names with
  | nil => simpa using h
  | cons source rest ih =>
    obtain ⟨k, -, -, hnew, -⟩ := names.fresh_spec source
    exact ih _ (List.nodup_cons.mpr ⟨hnew, h⟩)

/-- No name is handed out twice. -/
theorem nodup_handOut (sources : List String) : (empty.handOut sources).1.Nodup := by
  have hnodup := nodup_taken_handOut empty sources (by simp [empty])
  simpa [taken_handOut, empty] using hnodup

/-- The name that comes out after others is the mangled name with the least suffix that none of the others has; no more
suffixes are tried than there are others. -/
theorem handOut_snoc (sources : List String) (source : String) :
    ∃ k ≤ sources.length,
      (empty.handOut (sources ++ [source])).1 = (empty.handOut sources).1 ++ [candidate (mangle source) k] ∧
      candidate (mangle source) k ∉ (empty.handOut sources).1 ∧
      ∀ j < k, candidate (mangle source) j ∈ (empty.handOut sources).1 := by
  obtain ⟨k, hk, hfresh, hnew, hbefore⟩ := (empty.handOut sources).2.fresh_spec source
  rw [hfresh] at hnew
  simp only [taken_handOut, empty, List.append_nil, List.mem_reverse, List.length_reverse, length_handOut]
    at hk hnew hbefore
  exact ⟨k, hk, by simp [handOut_append, handOut, ← hfresh, empty], hnew, hbefore⟩

/-- Every name that comes out is that of its source with some suffix. -/
theorem forall₂_handOut (names : LocalNames) (sources : List String) :
    List.Forall₂ (fun source name => ∃ k, name = candidate (mangle source) k) sources (names.handOut sources).1 := by
  induction sources generalizing names with
  | nil => exact .nil
  | cons source rest ih =>
    obtain ⟨k, -, hfresh, -⟩ := names.fresh_spec source
    exact .cons ⟨k, hfresh⟩ (ih _)

end BlockLang.LocalNames
