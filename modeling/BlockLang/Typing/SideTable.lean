import BlockLang.Typing.Scope

/-!
# Side tables

What checking finds out about a tree is kept beside it, under the ids of its nodes: the types of expressions,
and the variables and functions that names stand for.  If an id gets an entry twice, the later one counts.
-/

namespace BlockLang

/-- What is known about the nodes of a tree; the latest entries come first. -/
structure SideTable where
  types : List (Nat × Ty)
  vars : List (Nat × VariableInfo)
  funs : List (Nat × FunctionInfo)
deriving Repr, Inhabited

namespace SideTable

/-- A table without entries. -/
def empty : SideTable := ⟨[], [], []⟩

/-- The type of an expression. -/
def type? (t : SideTable) (id : Nat) : Option Ty :=
  t.types.lookup id

/-- The variable that an access, a global, a parameter or a local declaration stands for. -/
def findVariable? (t : SideTable) (id : Nat) : Option VariableInfo :=
  t.vars.lookup id

/-- The function that a call or a definition stands for. -/
def findFunction? (t : SideTable) (id : Nat) : Option FunctionInfo :=
  t.funs.lookup id

/-- Records the type of an expression. -/
def setType (t : SideTable) (id : Nat) (type : Ty) : SideTable :=
  { t with types := (id, type) :: t.types }

/-- Records the variable that a node stands for. -/
def setVariable (t : SideTable) (id : Nat) (v : VariableInfo) : SideTable :=
  { t with vars := (id, v) :: t.vars }

/-- Records the function that a node stands for. -/
def setFunction (t : SideTable) (id : Nat) (f : FunctionInfo) : SideTable :=
  { t with funs := (id, f) :: t.funs }

/-! ## §1 Look-up after recording -/

/-- The type recorded last counts; other ids keep theirs. -/
theorem type?_setType (t : SideTable) (id : Nat) (type : Ty) (k : Nat) :
    (t.setType id type).type? k = if k = id then some type else t.type? k := by
  by_cases h : k = id
  · simp [type?, setType, h]
  · have hb : (k == id) = false := by simpa using h
    simp [type?, setType, List.lookup_cons, hb, h]

/-- The variable recorded last counts; other ids keep theirs. -/
theorem findVariable?_setVariable (t : SideTable) (id : Nat) (v : VariableInfo) (k : Nat) :
    (t.setVariable id v).findVariable? k = if k = id then some v else t.findVariable? k := by
  by_cases h : k = id
  · simp [findVariable?, setVariable, h]
  · have hb : (k == id) = false := by simpa using h
    simp [findVariable?, setVariable, List.lookup_cons, hb, h]

/-- The function recorded last counts; other ids keep theirs. -/
theorem findFunction?_setFunction (t : SideTable) (id : Nat) (f : FunctionInfo) (k : Nat) :
    (t.setFunction id f).findFunction? k = if k = id then some f else t.findFunction? k := by
  by_cases h : k = id
  · simp [findFunction?, setFunction, h]
  · have hb : (k == id) = false := by simpa using h
    simp [findFunction?, setFunction, List.lookup_cons, hb, h]

end SideTable

end BlockLang
