import BlockLang.Value.Basic

/-!
# Heaps of shared lists

Every list that has been created, by number.  A list never changes its length, only its elements.  What is said
about a value through its elements looks at most as deep as there are lists, which is as deep as it gets as long
as no list contains itself.
-/

namespace BlockLang

/-- Every list that has been created. -/
structure Heap where
  lists : Array (List Value)
deriving Repr, Inhabited

namespace Heap

/-! ## §1 Lists -/

/-- A heap without lists. -/
def empty : Heap := ⟨#[]⟩

/-- The elements of a list. -/
def elements (h : Heap) (ref : ListRef) : List Value :=
  h.lists.getD ref []

/-- Creates a list. -/
def allocate (h : Heap) (elements : List Value) : ListRef × Heap :=
  (h.lists.size, ⟨h.lists.push elements⟩)

/-- Replaces one element of a list. -/
def setElement (h : Heap) (ref : ListRef) (index : Nat) (v : Value) : Heap :=
  ⟨h.lists.modify ref fun elements => elements.set index v⟩

/-- How deep lists can be nested without one containing itself. -/
def depthBound (h : Heap) : Nat :=
  h.lists.size + 1

/-! ## §2 Containment -/

/-- Whether a list is the value itself or is reached from it through at most `n` lists. -/
def reaches (h : Heap) (target : ListRef) : Nat → Value → Bool
  | 0, _ => false
  | n + 1, .list ref => ref = target || (h.elements ref).any (reaches h target n)
  | _ + 1, _ => false

/-- Whether a list is the value itself or is reached from it through elements. -/
def contains (h : Heap) (v : Value) (target : ListRef) : Bool :=
  h.reaches target h.depthBound v

/-! ## §3 Equality -/

/-- Whether two lists of values agree pairwise in the sense of `same`. -/
def allSame (same : Value → Value → Bool) : List Value → List Value → Bool
  | [], [] => true
  | a :: as, b :: bs => same a b && allSame same as bs
  | _, _ => false

/-- Whether two values are equal, looking through at most `n` lists. -/
def sameWithin (h : Heap) : Nat → Value → Value → Bool
  | _, .nil, .nil => true
  | _, .boolean a, .boolean b => a = b
  | _, .integer a, .integer b => a = b
  | _, .decimal a, .decimal b => a.same b
  | _, .character a, .character b => a = b
  | _, .string a, .string b => a = b
  | n + 1, .list a, .list b => allSame (sameWithin h n) (h.elements a) (h.elements b)
  | _, _, _ => false

/-- Whether two values are equal: lists element by element, decimals as numbers. -/
def same (h : Heap) (a b : Value) : Bool :=
  h.sameWithin h.depthBound a b

/-! ## §4 Printed form -/

/-- The printed form of a value, looking through at most `n` lists. -/
def displayWithin (h : Heap) : Nat → Value → String
  | _, .nil => "null"
  | _, .boolean b => if b then "true" else "false"
  | _, .integer n => Digits.text n
  | _, .decimal d => d.plain
  | _, .character c => String.ofList [c]
  | _, .string s => s
  | 0, .list _ => ""
  | n + 1, .list ref => "[" ++ ", ".intercalate ((h.elements ref).map (displayWithin h n)) ++ "]"

/-- The printed form of a value. -/
def display (h : Heap) (v : Value) : String :=
  h.displayWithin h.depthBound v

end Heap

end BlockLang
