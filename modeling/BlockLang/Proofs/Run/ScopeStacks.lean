import BlockLang.Proofs.Run.Frames
import BlockLang.Run.Session
import BlockLang.Typing.Scope

/-!
# Scopes before and during a run

Before a run names are looked up in a root frame and a list of frames of open blocks; during a run they are looked up
along a path of numbered scopes in a store.  Opening and closing blocks and defining names does the same to both.  What
it does is written down in a ledger, which keeps nothing but the definitions that have been accepted, block by block:
both sides have the frames that a ledger describes, one with what is known about each name and the other with what it
stands for.

A function that was defined with a closure stays defined when the innermost scope of its closure is closed, without the
closure; so functions are compared without the environments that they were defined in.

## Main definitions

- `Ledger`: the accepted definitions of the open blocks.
- `Parallel`: a static scope, a session and a ledger on which the same steps are taken.
- `Parallel.Agrees`: the scope and the session accept and find what the ledger says.

## Main statement

- `scopes_agree`: after any steps the three agree, and closing a block brings every look-up back.
-/

namespace BlockLang

/-! ## §1 Definitions and steps -/

/-- A definition: what is known about a name, and what it stands for in a run. -/
inductive Definition where
  | variable (info : VariableInfo) (cell : Cell)
  | function (info : FunctionInfo) (callable : Callable)

/-- What no two definitions of one frame have in common. -/
inductive DefinitionKey where
  | variable (name : String)
  | function (name : String) (arity : Nat)
deriving DecidableEq

/-- A step on a stack of scopes. -/
inductive ScopeStep where
  | push
  | pop
  | define (d : Definition)

/-- Steps that close the blocks that they open, and no others. -/
inductive ClosesBlocks : List ScopeStep → Prop where
  | nil : ClosesBlocks []
  | define (d : Definition) {rest : List ScopeStep} : ClosesBlocks rest → ClosesBlocks (.define d :: rest)
  | block {inside rest : List ScopeStep} :
      ClosesBlocks inside → ClosesBlocks rest → ClosesBlocks (.push :: inside ++ .pop :: rest)

namespace Definition

def key : Definition → DefinitionKey
  | .variable info _ => .variable info.name
  | .function info _ => .function info.name info.arity

/-- The definition of the variable of some name. -/
def asVariable? (name : String) : Definition → Option (VariableInfo × Cell)
  | .variable info cell => if info.name = name then some (info, cell) else none
  | .function _ _ => none

/-- The definition of the function of some name and arity. -/
def asFunction? (name : String) (arity : Nat) : Definition → Option (FunctionInfo × Callable)
  | .function info callable => if info.name = name ∧ info.arity = arity then some (info, callable) else none
  | .variable _ _ => none

theorem isNone_asVariable? (name : String) (d : Definition) :
    (d.asVariable? name).isNone = (d.key ≠ .variable name) := by
  cases d <;> simp [asVariable?, key]

theorem isNone_asFunction? (name : String) (arity : Nat) (d : Definition) :
    (d.asFunction? name arity).isNone = (d.key ≠ .function name arity) := by
  cases d <;> simp [asFunction?, key]

end Definition

/-! ## §2 The three stacks -/

/-- The accepted definitions of each frame, the latest first; no frame is outside the last one. -/
structure Ledger where
  innermost : List Definition
  outer : List (List Definition)

namespace Ledger

def empty : Ledger := ⟨[], []⟩

/-- All frames, the innermost first. -/
def frames (l : Ledger) : List (List Definition) :=
  l.innermost :: l.outer

/-- A definition is accepted unless the innermost frame has one with its key. -/
def accepts (l : Ledger) (d : Definition) : Bool :=
  l.innermost.all fun e => e.key ≠ d.key

theorem accepts_variable (l : Ledger) (info : VariableInfo) (cell : Cell) :
    l.accepts (.variable info cell) = (l.innermost.findSome? (Definition.asVariable? info.name)).isNone := by
  rw [Bool.eq_iff_iff, Option.isNone_iff_eq_none, List.findSome?_eq_none_iff]
  simp [accepts, ← Option.isNone_iff_eq_none, Definition.isNone_asVariable?, Definition.key.eq_1]

theorem accepts_function (l : Ledger) (info : FunctionInfo) (callable : Callable) :
    l.accepts (.function info callable) =
      (l.innermost.findSome? (Definition.asFunction? info.name info.arity)).isNone := by
  rw [Bool.eq_iff_iff, Option.isNone_iff_eq_none, List.findSome?_eq_none_iff]
  simp [accepts, ← Option.isNone_iff_eq_none, Definition.isNone_asFunction?, Definition.key.eq_2]

def step (l : Ledger) : ScopeStep → Ledger
  | .push => ⟨[], l.frames⟩
  | .pop =>
    match l.outer with
    | [] => l
    | frame :: outer => ⟨frame, outer⟩
  | .define d => if l.accepts d then ⟨d :: l.innermost, l.outer⟩ else l

theorem step_accepted {l : Ledger} {d : Definition} (h : l.accepts d = true) :
    l.step (.define d) = ⟨d :: l.innermost, l.outer⟩ :=
  if_pos h

theorem step_refused {l : Ledger} {d : Definition} (h : l.accepts d = false) : l.step (.define d) = l :=
  if_neg (by simp [h])

/-- The variable of the innermost frame that has the name. -/
def findVariable? (l : Ledger) (name : String) : Option (VariableInfo × Cell) :=
  l.frames.findSome? fun frame => frame.findSome? (Definition.asVariable? name)

/-- The function of the innermost frame that has the name and arity. -/
def findFunction? (l : Ledger) (name : String) (arity : Nat) : Option (FunctionInfo × Callable) :=
  l.frames.findSome? fun frame => frame.findSome? (Definition.asFunction? name arity)

end Ledger

namespace Scope

/-- Keeps the scope unless it could be changed; tells whether it could. -/
def change (s : Scope) (scope? : Option Scope) : Bool × Scope :=
  match scope? with
  | some t => (true, t)
  | none => (false, s)

def define (s : Scope) : Definition → Bool × Scope
  | .variable info _ => s.change (s.defineVariable? info)
  | .function info _ => s.change (s.defineFunction? info)

def step (s : Scope) : ScopeStep → Scope
  | .push => s.push
  | .pop => s.pop
  | .define d => (s.define d).2

end Scope

/-- A function without the environment that it was defined in. -/
def Callable.unclosed : Callable → Callable
  | .builtin which => .builtin which
  | .defined f _ => .defined f none

namespace Session

/-- Defines anything that can be called in the innermost scope. -/
def defineCallable (s : Session) (name : String) (arity : Nat) (callable : Callable) : Bool × Session :=
  s.change (s.store.defineFunction? s.innermost name arity callable)

def define (s : Session) : Definition → Bool × Session
  | .variable info cell => s.defineVariable info.name cell
  | .function info callable => s.defineCallable info.name info.arity callable

def step (s : Session) : ScopeStep → Session
  | .push => s.push
  | .pop => s.pop
  | .define d => (s.define d).2

/-- A session whose store has one scope, without names. -/
def root (heap : Heap) (sink : Sink) : Session :=
  .start ⟨#[.empty], heap, sink⟩

end Session

/-! ## §3 Frames for definitions -/

/-- What frames keep for definitions. -/
structure Keeping (V F : Type) where
  ofVariable : VariableInfo → Cell → V
  ofFunction : FunctionInfo → Callable → F

namespace Keeping

/-- What is known about names. -/
def known : Keeping VariableInfo FunctionInfo :=
  ⟨fun info _ => info, fun info _ => info⟩

/-- What names stand for. -/
def meant : Keeping Cell Callable :=
  ⟨fun _ cell => cell, fun _ callable => callable.unclosed⟩

variable {V F : Type} (k : Keeping V F)

def variableEntry? : Definition → Option (String × V)
  | .variable info cell => some (info.name, k.ofVariable info cell)
  | .function _ _ => none

def functionEntry? : Definition → Option ((String × Nat) × F)
  | .function info callable => some ((info.name, info.arity), k.ofFunction info callable)
  | .variable _ _ => none

/-- The frame that some definitions make up, the latest first. -/
def frame (ds : List Definition) : Frame V F :=
  ⟨ds.filterMap k.variableEntry?, ds.filterMap k.functionEntry?⟩

@[simp] theorem frame_variable (info : VariableInfo) (cell : Cell) (ds : List Definition) :
    k.frame (.variable info cell :: ds) =
      { k.frame ds with vars := (info.name, k.ofVariable info cell) :: (k.frame ds).vars } := rfl

@[simp] theorem frame_function (info : FunctionInfo) (callable : Callable) (ds : List Definition) :
    k.frame (.function info callable :: ds) =
      { k.frame ds with funs := ((info.name, info.arity), k.ofFunction info callable) :: (k.frame ds).funs } := rfl

theorem findVariable?_frame (ds : List Definition) (name : String) :
    (k.frame ds).findVariable? name =
      (ds.findSome? (Definition.asVariable? name)).map fun found => k.ofVariable found.1 found.2 := by
  induction ds with
  | nil => rfl
  | cons d ds ih =>
    cases d with
    | function info callable => exact ih
    | «variable» info cell =>
      rw [List.findSome?_cons, Definition.asVariable?, Frame.findVariable?, frame_variable, List.lookup_cons]
      by_cases hname : info.name = name
      · simp [hname]
      · -- Of an entry with another name, the look-up goes past it in the frame as in the definitions.
        have hkey : (name == info.name) = false := by simpa using Ne.symm hname
        simp only [hkey, if_neg hname]
        exact ih

theorem findFunction?_frame (ds : List Definition) (name : String) (arity : Nat) :
    (k.frame ds).findFunction? name arity =
      (ds.findSome? (Definition.asFunction? name arity)).map fun found => k.ofFunction found.1 found.2 := by
  induction ds with
  | nil => rfl
  | cons d ds ih =>
    cases d with
    | «variable» info cell => exact ih
    | function info callable =>
      rw [List.findSome?_cons, Definition.asFunction?, Frame.findFunction?, frame_function, List.lookup_cons]
      by_cases hkey : info.name = name ∧ info.arity = arity
      · simp [hkey]
      · have hne : ((name, arity) == (info.name, info.arity)) = false := by
          rw [beq_eq_false_iff_ne]
          rintro ⟨⟩
          exact hkey ⟨rfl, rfl⟩
        simp only [hne, if_neg hkey]
        exact ih

variable (l : Ledger)

/-- A variable is defined in a frame if the definition is accepted, and only then. -/
theorem defineVariable?_frame (info : VariableInfo) (cell : Cell) :
    (k.frame l.innermost).defineVariable? info.name (k.ofVariable info cell) =
      if l.accepts (.variable info cell) then some (k.frame (.variable info cell :: l.innermost)) else none := by
  rw [l.accepts_variable, Frame.defineVariable?, findVariable?_frame]
  cases l.innermost.findSome? (Definition.asVariable? info.name) <;> rfl

/-- A function is defined in a frame if the definition is accepted, and only then. -/
theorem defineFunction?_frame (info : FunctionInfo) (callable : Callable) :
    (k.frame l.innermost).defineFunction? info.name info.arity (k.ofFunction info callable) =
      if l.accepts (.function info callable) then some (k.frame (.function info callable :: l.innermost))
      else none := by
  rw [l.accepts_function, Frame.defineFunction?, findFunction?_frame]
  cases l.innermost.findSome? (Definition.asFunction? info.name info.arity) <;> rfl

end Keeping

/-! ## §4 The static scope follows the ledger -/

namespace Scope

/-- A scope has the frames that a ledger describes. -/
def Follows (s : Scope) (l : Ledger) : Prop :=
  s.frames = l.frames.map Keeping.known.frame

variable {s : Scope} {l : Ledger} {f g : StaticFrame} {outer : List StaticFrame}
  {change : StaticFrame → Option StaticFrame}

theorem updateInnermost?_of_none (h : s.frames = f :: outer) (hchange : change f = none) :
    s.updateInnermost? change = none := by
  obtain ⟨root, inner⟩ := s
  cases inner with
  | nil =>
    obtain ⟨rfl, -⟩ := List.cons.inj h
    simp [updateInnermost?, hchange]
  | cons first rest =>
    obtain ⟨rfl, -⟩ := List.cons.inj h
    simp [updateInnermost?, hchange]

theorem updateInnermost?_of_some (h : s.frames = f :: outer) (hchange : change f = some g) :
    ∃ t, s.updateInnermost? change = some t ∧ t.frames = g :: outer := by
  obtain ⟨root, inner⟩ := s
  cases inner with
  | nil =>
    obtain ⟨rfl, rfl⟩ := List.cons.inj h
    exact ⟨⟨g, []⟩, by simp [updateInnermost?, hchange], rfl⟩
  | cons first rest =>
    obtain ⟨rfl, rfl⟩ := List.cons.inj h
    exact ⟨⟨root, g :: rest⟩, by simp [updateInnermost?, hchange], rfl⟩

namespace Follows

theorem empty : Scope.empty.Follows .empty := rfl

theorem push (h : s.Follows l) : s.push.Follows (l.step .push) :=
  congrArg (Frame.empty :: ·) h

theorem pop (h : s.Follows l) : s.pop.Follows (l.step .pop) := by
  obtain ⟨root, inner⟩ := s
  obtain ⟨innermost, outer⟩ := l
  -- Both sides have as many frames, so both are at the root or neither is.
  cases inner with
  | nil =>
    obtain ⟨hroot, houter⟩ : root = Keeping.known.frame innermost ∧ [] = outer.map Keeping.known.frame :=
      List.cons.inj h
    obtain rfl := List.map_eq_nil_iff.mp houter.symm
    exact h
  | cons first rest =>
    obtain ⟨-, houter⟩ : first = Keeping.known.frame innermost ∧ rest ++ [root] = outer.map Keeping.known.frame :=
      List.cons.inj h
    cases outer with
    | nil => simp at houter
    | cons frame outer => exact houter

theorem define (h : s.Follows l) (d : Definition) :
    (s.define d).1 = l.accepts d ∧ (s.define d).2.Follows (l.step (.define d)) ∧
      (l.accepts d = false → (s.define d).2 = s) := by
  have hframes : s.frames = Keeping.known.frame l.innermost :: l.outer.map Keeping.known.frame := h
  -- The change of the innermost frame, and what the scope makes of it.
  obtain ⟨change, hdefine, hchange⟩ : ∃ change, s.define d = s.change (s.updateInnermost? change) ∧
      change (Keeping.known.frame l.innermost) =
        if l.accepts d then some (Keeping.known.frame (d :: l.innermost)) else none := by
    cases d with
    | «variable» info cell => exact ⟨_, rfl, Keeping.known.defineVariable?_frame l info cell⟩
    | function info callable => exact ⟨_, rfl, Keeping.known.defineFunction?_frame l info callable⟩
  rw [hdefine]
  cases haccepts : l.accepts d with
  | false =>
    rw [haccepts] at hchange
    rw [updateInnermost?_of_none hframes hchange]
    rw [Ledger.step_refused haccepts]
    exact ⟨rfl, h, fun _ => rfl⟩
  | true =>
    rw [haccepts] at hchange
    obtain ⟨t, hupdate, ht⟩ := updateInnermost?_of_some hframes hchange
    rw [hupdate]
    rw [Ledger.step_accepted haccepts]
    exact ⟨rfl, ht, nofun⟩

theorem step (h : s.Follows l) (step : ScopeStep) : (s.step step).Follows (l.step step) := by
  cases step with
  | push => exact h.push
  | pop => exact h.pop
  | define d => exact (h.define d).2.1

theorem depth_eq (h : s.Follows l) : s.depth = l.frames.length := by
  have hlength := congrArg List.length h
  rw [List.length_map, Scope.frames, List.length_append] at hlength
  exact hlength

theorem findVariable?_eq (h : s.Follows l) (name : String) :
    s.findVariable? name = (l.findVariable? name).map Prod.fst := by
  rw [Scope.findVariable?, h, List.findSome?_map, Ledger.findVariable?, List.map_findSome?]
  congr 1
  funext ds
  exact Keeping.known.findVariable?_frame ds name

theorem findFunction?_eq (h : s.Follows l) (name : String) (arity : Nat) :
    s.findFunction? name arity = (l.findFunction? name arity).map Prod.fst := by
  rw [Scope.findFunction?, h, List.findSome?_map, Ledger.findFunction?, List.map_findSome?]
  congr 1
  funext ds
  exact Keeping.known.findFunction?_frame ds name arity

end Follows

end Scope

/-! ## §5 The session follows the ledger -/

namespace Callable

@[simp] theorem unclosed_forget (scope : Nat) (callable : Callable) :
    (callable.forget scope).unclosed = callable.unclosed := by
  obtain which | ⟨f, _ | env⟩ := callable <;> rfl

end Callable

theorem range_succ_reverse (n : Nat) : (List.range (n + 1)).reverse = n :: (List.range n).reverse := by
  rw [List.range_succ, List.reverse_append, List.reverse_singleton, List.singleton_append]

namespace Store

/-- The frame of a scope, with functions without their closures. -/
def unclosedFrame (s : Store) (scope : Nat) : RunFrame :=
  (s.frame scope).mapFunctions Callable.unclosed

variable (s : Store)

@[simp] theorem unclosedFrame_openScope (scope : Nat) : s.openScope.unclosedFrame scope = s.unclosedFrame scope := by
  rw [unclosedFrame, frame_openScope, unclosedFrame]

theorem unclosedFrame_of_size_le {scope : Nat} (h : s.scopes.size ≤ scope) : s.unclosedFrame scope = .empty := by
  rw [unclosedFrame, frame_of_size_le h]
  rfl

theorem unclosedFrame_withFrame {n : Nat} (h : n < s.scopes.size) (f : RunFrame) (scope : Nat) :
    (s.withFrame n f).unclosedFrame scope =
      if scope = n then f.mapFunctions Callable.unclosed else s.unclosedFrame scope := by
  rw [unclosedFrame, frame_withFrame h]
  split <;> rfl

/-- The store after the last scope has been closed and with it the closures of functions. -/
def closeAndForget : Store :=
  { s.closeScope with
    scopes := s.closeScope.scopes.map fun f => f.mapFunctions (Callable.forget (s.scopes.size - 1)) }

theorem unclosedFrame_closeAndForget {scope : Nat} (h : scope < s.scopes.size - 1) :
    s.closeAndForget.unclosedFrame scope = s.unclosedFrame scope := by
  have hframe : s.closeAndForget.frame scope =
      (s.frame scope).mapFunctions (Callable.forget (s.scopes.size - 1)) := by
    unfold closeAndForget frame closeScope
    rw [Array.getElem?_map, Array.getElem?_pop, if_pos h]
    cases s.scopes[scope]? <;> rfl
  rw [unclosedFrame, hframe]
  simp [unclosedFrame, Frame.mapFunctions]

end Store

namespace Session

/-- A session has the frames that a ledger describes: the scopes of its environment are all open scopes, with the one
opened last as the innermost. -/
structure Follows (s : Session) (l : Ledger) : Prop where
  env_eq : s.env = l.outer.length :: (List.range l.outer.length).reverse
  size_eq : s.store.scopes.size = l.outer.length + 1
  innermost_eq : s.store.unclosedFrame l.outer.length = Keeping.meant.frame l.innermost
  outer_eq : (List.range l.outer.length).reverse.map s.store.unclosedFrame = l.outer.map Keeping.meant.frame

variable {s : Session} {l : Ledger}

namespace Follows

theorem root (heap : Heap) (sink : Sink) : (Session.root heap sink).Follows .empty :=
  ⟨rfl, rfl, rfl, rfl⟩

theorem push (h : s.Follows l) : s.push.Follows (l.step .push) where
  env_eq := by
    rw [Session.push, h.env_eq, h.size_eq, ← range_succ_reverse]
    rfl
  size_eq := by
    have hsize : s.push.store.scopes.size = s.store.scopes.size + 1 := Array.size_push _
    rw [hsize, h.size_eq]
    rfl
  innermost_eq := by
    rw [Session.push, Store.unclosedFrame_openScope]
    exact s.store.unclosedFrame_of_size_le (Nat.le_of_eq h.size_eq)
  outer_eq := by
    have hframes : s.push.store.unclosedFrame = s.store.unclosedFrame :=
      funext s.store.unclosedFrame_openScope
    have hlength : (l.step .push).outer.length = l.outer.length + 1 := rfl
    rw [hframes, hlength, range_succ_reverse, List.map_cons, h.innermost_eq, h.outer_eq]
    rfl

theorem pop (h : s.Follows l) : s.pop.Follows (l.step .pop) := by
  obtain ⟨store, env⟩ := s
  obtain ⟨innermost, outer⟩ := l
  obtain rfl : env = outer.length :: (List.range outer.length).reverse := h.env_eq
  cases outer with
  | nil => exact h
  | cons frame outer =>
    have hsize : store.scopes.size = outer.length + 1 + 1 := h.size_eq
    have hstore : (Session.pop ⟨store, (frame :: outer).length :: (List.range (frame :: outer).length).reverse⟩) =
        ⟨store.closeAndForget, outer.length :: (List.range outer.length).reverse⟩ := by
      rw [List.length_cons, range_succ_reverse, Session.pop, Store.closeAndForget, hsize]
      rfl
    -- The frame that becomes the innermost one is the first of the outer ones.
    have houter := h.outer_eq
    rw [List.length_cons, range_succ_reverse, List.map_cons, List.map_cons, List.cons.injEq] at houter
    have hframe : ∀ i ≤ outer.length, store.closeAndForget.unclosedFrame i = store.unclosedFrame i := by
      intro i hi
      exact store.unclosedFrame_closeAndForget (by omega)
    rw [hstore]
    refine ⟨rfl, ?_, (hframe _ (Nat.le_refl _)).trans houter.1, ?_⟩
    · simp [Store.closeAndForget, Store.closeScope, hsize, Ledger.step]
    · refine Eq.trans (List.map_congr_left fun i hi => hframe i ?_) houter.2
      exact Nat.le_of_lt (List.mem_range.mp (List.mem_reverse.mp hi))

/-- What becomes of a session whose innermost frame is replaced by one with another definition. -/
theorem withFrame (h : s.Follows l) {d : Definition} {f : RunFrame}
    (hf : f.mapFunctions Callable.unclosed = Keeping.meant.frame (d :: l.innermost)) :
    Session.Follows { s with store := s.store.withFrame l.outer.length f } ⟨d :: l.innermost, l.outer⟩ where
  env_eq := h.env_eq
  size_eq := (Array.size_setIfInBounds ..).trans h.size_eq
  innermost_eq := by
    rw [s.store.unclosedFrame_withFrame (Nat.lt_of_lt_of_eq (Nat.lt_succ_self _) h.size_eq.symm), if_pos rfl]
    exact hf
  outer_eq := by
    refine Eq.trans (List.map_congr_left fun i hi => ?_) h.outer_eq
    have hlt : i < l.outer.length := List.mem_range.mp (List.mem_reverse.mp hi)
    rw [s.store.unclosedFrame_withFrame (Nat.lt_of_lt_of_eq (Nat.lt_succ_self _) h.size_eq.symm),
      if_neg (Nat.ne_of_lt hlt)]

theorem define (h : s.Follows l) (d : Definition) :
    (s.define d).1 = l.accepts d ∧ (s.define d).2.Follows (l.step (.define d)) ∧
      (l.accepts d = false → (s.define d).2 = s) := by
  have hinnermost : s.innermost = l.outer.length := by rw [Session.innermost, h.env_eq, List.headD_cons]
  have hlt : l.outer.length < s.store.scopes.size := Nat.lt_of_lt_of_eq (Nat.lt_succ_self _) h.size_eq.symm
  -- The change of the innermost frame, and what it does to the frame without closures.
  obtain ⟨change, hdefine, hchange⟩ : ∃ change, s.define d = s.change (s.store.updateScope? s.innermost change) ∧
      (change (s.store.frame l.outer.length)).map (fun f => f.mapFunctions Callable.unclosed) =
        if l.accepts d then some (Keeping.meant.frame (d :: l.innermost)) else none := by
    cases d with
    | «variable» info cell =>
      refine ⟨_, rfl, ?_⟩
      rw [← Keeping.meant.defineVariable?_frame l info cell, ← h.innermost_eq]
      exact (Frame.defineVariable?_mapFunctions Callable.unclosed _ info.name cell).symm
    | function info callable =>
      refine ⟨_, rfl, ?_⟩
      rw [← Keeping.meant.defineFunction?_frame l info callable, ← h.innermost_eq]
      exact (Frame.defineFunction?_mapFunctions Callable.unclosed _ info.name info.arity callable).symm
  rw [hdefine, hinnermost, Store.updateScope?_eq, if_pos hlt]
  cases haccepts : l.accepts d with
  | false =>
    rw [haccepts] at hchange
    rw [Option.map_eq_none_iff.mp hchange, Ledger.step_refused haccepts]
    exact ⟨rfl, h, fun _ => rfl⟩
  | true =>
    rw [haccepts] at hchange
    obtain ⟨f, hf, hframe⟩ := Option.map_eq_some_iff.mp hchange
    rw [hf, Ledger.step_accepted haccepts]
    exact ⟨rfl, h.withFrame hframe, nofun⟩

theorem step (h : s.Follows l) (step : ScopeStep) : (s.step step).Follows (l.step step) := by
  cases step with
  | push => exact h.push
  | pop => exact h.pop
  | define d => exact (h.define d).2.1

theorem depth_eq (h : s.Follows l) : s.depth = l.frames.length := by
  simp [Session.depth, h.env_eq, Ledger.frames]

/-- The frames of the environment, the innermost first. -/
theorem frames_eq (h : s.Follows l) : s.env.map s.store.unclosedFrame = l.frames.map Keeping.meant.frame := by
  rw [h.env_eq, List.map_cons, h.innermost_eq, h.outer_eq]
  rfl

theorem cell?_eq (h : s.Follows l) (name : String) : s.cell? name = (l.findVariable? name).map Prod.snd := by
  have hfind : s.cell? name = (s.env.map s.store.unclosedFrame).findSome? fun f => f.findVariable? name := by
    rw [Session.cell?, Store.findVariable?, List.map_findSome?, List.findSome?_map]
    congr 1
    funext i
    dsimp only [Function.comp]
    rw [Option.map_map, Store.cell?_eq]
    exact Option.map_id'
  rw [hfind, h.frames_eq, List.findSome?_map, Ledger.findVariable?, List.map_findSome?]
  congr 1
  funext ds
  exact Keeping.meant.findVariable?_frame ds name

theorem findFunction?_eq (h : s.Follows l) (name : String) (arity : Nat) :
    (s.findFunction? name arity).map Callable.unclosed =
      (l.findFunction? name arity).map fun found => found.2.unclosed := by
  have hfind : (s.findFunction? name arity).map Callable.unclosed =
      (s.env.map s.store.unclosedFrame).findSome? fun f => f.findFunction? name arity := by
    rw [Session.findFunction?, Store.findFunction?_eq, List.map_findSome?, List.findSome?_map]
    congr 1
    funext i
    exact (Frame.findFunction?_mapFunctions Callable.unclosed _ name arity).symm
  rw [hfind, h.frames_eq, List.findSome?_map, Ledger.findFunction?, List.map_findSome?]
  congr 1
  funext ds
  exact Keeping.meant.findFunction?_frame ds name arity

end Follows

end Session

/-! ## §6 All three in parallel -/

/-- A static scope, a session and a ledger. -/
structure Parallel where
  scope : Scope
  session : Session
  ledger : Ledger

namespace Parallel

/-- All three at the root, without names. -/
def root (heap : Heap) (sink : Sink) : Parallel :=
  ⟨.empty, .root heap sink, .empty⟩

/-- Takes a step on each of the three, without regard to the others. -/
def step (p : Parallel) (step : ScopeStep) : Parallel :=
  ⟨p.scope.step step, p.session.step step, p.ledger.step step⟩

def after (p : Parallel) (steps : List ScopeStep) : Parallel :=
  steps.foldl step p

/-- The scope and the session accept and refuse what the ledger does, and find the definitions that it finds. -/
structure Agrees (p : Parallel) : Prop where
  depth : p.scope.depth = p.ledger.frames.length ∧ p.session.depth = p.ledger.frames.length
  accepts (d : Definition) : (p.scope.define d).1 = p.ledger.accepts d ∧ (p.session.define d).1 = p.ledger.accepts d
  refuses (d : Definition) : p.ledger.accepts d = false →
    (p.scope.define d).2 = p.scope ∧ (p.session.define d).2 = p.session
  findVariable? (name : String) : p.scope.findVariable? name = (p.ledger.findVariable? name).map Prod.fst ∧
    p.session.cell? name = (p.ledger.findVariable? name).map Prod.snd
  findFunction? (name : String) (arity : Nat) :
    p.scope.findFunction? name arity = (p.ledger.findFunction? name arity).map Prod.fst ∧
      (p.session.findFunction? name arity).map Callable.unclosed =
        (p.ledger.findFunction? name arity).map fun found => found.2.unclosed

/-- Two scopes and two sessions find the same. -/
structure SameLookups (p q : Parallel) : Prop where
  scopeVariable (name : String) : p.scope.findVariable? name = q.scope.findVariable? name
  scopeFunction (name : String) (arity : Nat) : p.scope.findFunction? name arity = q.scope.findFunction? name arity
  sessionVariable (name : String) : p.session.cell? name = q.session.cell? name
  sessionFunction (name : String) (arity : Nat) :
    (p.session.findFunction? name arity).map Callable.unclosed =
      (q.session.findFunction? name arity).map Callable.unclosed

variable {p q : Parallel}

/-- The scope and the session follow the ledger. -/
def InStep (p : Parallel) : Prop :=
  p.scope.Follows p.ledger ∧ p.session.Follows p.ledger

/-- Every step keeps the three in step, so any steps do. -/
theorem InStep.after (h : p.InStep) (steps : List ScopeStep) : (p.after steps).InStep := by
  induction steps generalizing p with
  | nil => exact h
  | cons step rest ih => exact ih (p := p.step step) ⟨h.1.step step, h.2.step step⟩

theorem InStep.agrees (h : p.InStep) : p.Agrees where
  depth := ⟨h.1.depth_eq, h.2.depth_eq⟩
  accepts d := ⟨(h.1.define d).1, (h.2.define d).1⟩
  refuses d hrefused := ⟨(h.1.define d).2.2 hrefused, (h.2.define d).2.2 hrefused⟩
  findVariable? name := ⟨h.1.findVariable?_eq name, h.2.cell?_eq name⟩
  findFunction? name arity := ⟨h.1.findFunction?_eq name arity, h.2.findFunction?_eq name arity⟩

/-- What is found is a matter of the ledger. -/
theorem Agrees.sameLookups (hp : p.Agrees) (hq : q.Agrees) (hledger : p.ledger = q.ledger) : p.SameLookups q where
  scopeVariable name := by rw [(hp.findVariable? name).1, hledger, (hq.findVariable? name).1]
  scopeFunction name arity := by rw [(hp.findFunction? name arity).1, hledger, (hq.findFunction? name arity).1]
  sessionVariable name := by rw [(hp.findVariable? name).2, hledger, (hq.findVariable? name).2]
  sessionFunction name arity := by rw [(hp.findFunction? name arity).2, hledger, (hq.findFunction? name arity).2]

theorem after_append (p : Parallel) (steps more : List ScopeStep) :
    p.after (steps ++ more) = (p.after steps).after more :=
  List.foldl_append

/-- Closing a block brings back the ledger from which it was opened. -/
theorem ledger_step_pop (h : p.ledger.outer = q.ledger.frames) : (p.step .pop).ledger = q.ledger := by
  unfold step Ledger.step
  dsimp only
  rw [h]
  rfl

/-- Steps inside a block leave the frames around it as they are. -/
theorem outer_after {inside : List ScopeStep} (h : ClosesBlocks inside) (p : Parallel) :
    (p.after inside).ledger.outer = p.ledger.outer := by
  induction h generalizing p with
  | nil => rfl
  | define d _ ih =>
    refine (ih (p.step (.define d))).trans ?_
    unfold step Ledger.step
    dsimp only
    split <;> rfl
  | @block inside rest _ _ ihinside ihrest =>
    -- The steps of the block itself leave open what it was opened in, to which closing it goes back.
    have hclosed := ledger_step_pop (q := p) (ihinside (p.step .push))
    have hsteps : p.after (.push :: inside ++ .pop :: rest) = (((p.step .push).after inside).step .pop).after rest :=
      (p.step .push).after_append inside (.pop :: rest)
    rw [hsteps, ihrest, hclosed]

theorem ledger_after_block {inside : List ScopeStep} (h : ClosesBlocks inside) (p : Parallel) :
    (p.after (.push :: inside ++ [.pop])).ledger = p.ledger := by
  have hsteps : p.after (.push :: inside ++ [.pop]) = ((p.step .push).after inside).step .pop :=
    (p.step .push).after_append inside [.pop]
  rw [hsteps]
  exact ledger_step_pop (outer_after h (p.step .push))

end Parallel

/-- **Static scopes and environments are one structure.** After any steps the static scope and the session accept and
find the same definitions: one is refused exactly if the innermost frame has its key, and then both stay as they are;
and what a look-up finds is the accepted definition of the innermost open frame that has the key.  The static scope
never has less than one frame.  When a block is closed, both find again what they found before it was opened. -/
theorem scopes_agree (heap : Heap) (sink : Sink) (steps : List ScopeStep) :
    ((Parallel.root heap sink).after steps).Agrees ∧ 1 ≤ ((Parallel.root heap sink).after steps).scope.depth ∧
      ∀ inside, ClosesBlocks inside →
        ((Parallel.root heap sink).after (steps ++ (.push :: inside ++ [.pop]))).SameLookups
          ((Parallel.root heap sink).after steps) := by
  have hroot : (Parallel.root heap sink).InStep := ⟨.empty, .root heap sink⟩
  refine ⟨(hroot.after steps).agrees, Scope.depth_pos _, fun inside hinside => ?_⟩
  have hledger : ((Parallel.root heap sink).after (steps ++ (.push :: inside ++ [.pop]))).ledger =
      ((Parallel.root heap sink).after steps).ledger := by
    rw [Parallel.after_append]
    exact Parallel.ledger_after_block hinside _
  exact (hroot.after _).agrees.sameLookups (hroot.after steps).agrees hledger

/-- A constant integer outside a block. -/
def outerDefinition : Definition :=
  .variable ⟨"x", "x", .integer, false, false⟩ ⟨false, .integer 1⟩

/-- A mutable Boolean of the same name inside the block. -/
def innerDefinition : Definition :=
  .variable ⟨"x", "x", .boolean, true, false⟩ ⟨true, .boolean true⟩

theorem scopes_agree_shadowing :
    ClosesBlocks [.define innerDefinition, .define outerDefinition] ∧
      (let p := (Parallel.root .empty (.withLimit none)).after
        [.define outerDefinition, .push, .define innerDefinition]
      (p.session.define outerDefinition).1 = false ∧ p.session.cell? "x" = some ⟨true, .boolean true⟩) ∧
      ((Parallel.root .empty (.withLimit none)).after ([.define outerDefinition] ++
        (.push :: [.define innerDefinition, .define outerDefinition] ++ [.pop]))).SameLookups
        ((Parallel.root .empty (.withLimit none)).after [.define outerDefinition]) := by
  have hcloses : ClosesBlocks [.define innerDefinition, .define outerDefinition] := .define _ (.define _ .nil)
  obtain ⟨hinside, -, -⟩ :=
    scopes_agree .empty (.withLimit none) [.define outerDefinition, .push, .define innerDefinition]
  obtain ⟨-, -, hclosed⟩ := scopes_agree .empty (.withLimit none) [.define outerDefinition]
  exact ⟨hcloses, ⟨(hinside.accepts outerDefinition).2, (hinside.findVariable? "x").2⟩, hclosed _ hcloses⟩

end BlockLang
