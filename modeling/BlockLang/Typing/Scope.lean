import BlockLang.Frame
import BlockLang.Typing.Ty

/-!
# Static scopes

What is known about the names that can be used at a place of a program: a stack of frames, the innermost first,
above a root frame that is always there.
-/

namespace BlockLang

/-- What is known about a variable. -/
structure VariableInfo where
  /-- Its name in the program. -/
  name : String
  /-- Its name in generated code. -/
  runtimeName : String
  /-- Its type; for a list the type of its elements. -/
  type : Ty
  /-- Whether it may be assigned. -/
  mutable : Bool
  /-- Whether it holds a list. -/
  list : Bool
deriving DecidableEq, Repr, Inhabited

/-- What is known about a function. -/
structure FunctionInfo where
  /-- Its name in the program. -/
  name : String
  /-- Its name in generated code. -/
  runtimeName : String
  parameters : List Ty
  returns : Ty
deriving DecidableEq, Repr, Inhabited

/-- The number of parameters. -/
def FunctionInfo.arity (f : FunctionInfo) : Nat :=
  f.parameters.length

/-- What is known about the names of one block. -/
abbrev StaticFrame := Frame VariableInfo FunctionInfo

/-- What is known about the names that can be used at a place. -/
structure Scope where
  /-- The frame of globals and functions. -/
  root : StaticFrame
  /-- The frames of the open blocks, the innermost first. -/
  inner : List StaticFrame
deriving Repr, Inhabited

namespace Scope

/-- A scope with an empty root frame alone. -/
def empty : Scope := ⟨.empty, []⟩

/-- All frames, the innermost first. -/
def frames (s : Scope) : List StaticFrame :=
  s.inner ++ [s.root]

/-- The number of frames, the root included. -/
def depth (s : Scope) : Nat :=
  s.inner.length + 1

/-- Opens a block. -/
def push (s : Scope) : Scope :=
  { s with inner := .empty :: s.inner }

/-- Closes the innermost block.  The root frame stays. -/
def pop (s : Scope) : Scope :=
  { s with inner := s.inner.drop 1 }

/-- Changes the innermost frame, unless the change is refused. -/
def updateInnermost? (s : Scope) (change : StaticFrame → Option StaticFrame) : Option Scope :=
  match s.inner with
  | [] => (change s.root).map fun f => { s with root := f }
  | f :: outer => (change f).map fun g => { s with inner := g :: outer }

/-- Defines a variable in the innermost frame; none if that frame has its name already. -/
def defineVariable? (s : Scope) (v : VariableInfo) : Option Scope :=
  s.updateInnermost? fun f => f.defineVariable? v.name v

/-- Defines a function in the innermost frame; none if that frame has its name and arity already. -/
def defineFunction? (s : Scope) (f : FunctionInfo) : Option Scope :=
  s.updateInnermost? fun frame => frame.defineFunction? f.name f.arity f

/-- The variable of the innermost frame that has the name. -/
def findVariable? (s : Scope) (name : String) : Option VariableInfo :=
  s.frames.findSome? fun f => f.findVariable? name

/-- The function of the innermost frame that has the name and arity. -/
def findFunction? (s : Scope) (name : String) (arity : Nat) : Option FunctionInfo :=
  s.frames.findSome? fun f => f.findFunction? name arity

/-! ## §1 Depth -/

@[simp] theorem depth_push (s : Scope) : s.push.depth = s.depth + 1 := rfl

/-- Closing the block opened last restores the scope. -/
@[simp] theorem pop_push (s : Scope) : s.push.pop = s := rfl

/-- There is always at least the root frame. -/
theorem depth_pos (s : Scope) : 0 < s.depth :=
  Nat.succ_pos _

/-- A definition opens and closes no block. -/
theorem depth_of_updateInnermost? {s t : Scope} {change : StaticFrame → Option StaticFrame}
    (h : s.updateInnermost? change = some t) : t.depth = s.depth := by
  unfold updateInnermost? at h
  split at h
  · obtain ⟨f, _, rfl⟩ := Option.map_eq_some_iff.mp h
    rfl
  · rename_i f outer hs
    obtain ⟨g, _, rfl⟩ := Option.map_eq_some_iff.mp h
    simp [depth, hs]

/-! ## §2 Frames -/

/-- Closing a block brings no frame. -/
theorem frames_pop_subset (s : Scope) : s.pop.frames ⊆ s.frames := by
  intro frame hframe
  rcases List.mem_append.mp hframe with hinner | hroot
  · exact List.mem_append_left _ (List.mem_of_mem_drop hinner)
  · exact List.mem_append_right _ hroot

/-- Changing the innermost frame leaves the other frames. -/
theorem frames_of_updateInnermost? {s t : Scope} {change : StaticFrame → Option StaticFrame}
    (h : s.updateInnermost? change = some t) : ∃ frame ∈ s.frames, ∃ frame', change frame = some frame' ∧
      ∀ x ∈ t.frames, x = frame' ∨ x ∈ s.frames := by
  obtain ⟨root, inner⟩ := s
  unfold updateInnermost? at h
  cases inner with
  | nil =>
    obtain ⟨frame', hchange, rfl⟩ := Option.map_eq_some_iff.mp h
    exact ⟨root, by simp [frames], frame', hchange, by simp [frames]⟩
  | cons frame outer =>
    obtain ⟨frame', hchange, rfl⟩ := Option.map_eq_some_iff.mp h
    refine ⟨frame, by simp [frames], frame', hchange, fun x hx => ?_⟩
    simp only [frames, List.cons_append, List.mem_cons] at hx ⊢
    exact hx.imp_right Or.inr

end Scope

end BlockLang
