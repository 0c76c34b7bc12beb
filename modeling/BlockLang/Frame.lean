/-!
# Frames of names

A frame holds the names that one block defines: variables by name, functions by name and arity.  A frame never
defines a key twice.  Frames are used before a run, for what is known about names, and during it, for the cells
that the names stand for.
-/

namespace BlockLang

/-- The names of one block, with `V` kept for each variable and `F` for each function. -/
structure Frame (V F : Type) where
  /-- The variables by name, the latest first. -/
  vars : List (String × V)
  /-- The functions by name and arity, the latest first. -/
  funs : List ((String × Nat) × F)
deriving Repr

namespace Frame

variable {V F : Type}

/-- A frame without names. -/
def empty : Frame V F := ⟨[], []⟩

instance : Inhabited (Frame V F) := ⟨empty⟩

/-- What is kept for a variable. -/
def findVariable? (f : Frame V F) (name : String) : Option V :=
  f.vars.lookup name

/-- What is kept for a function. -/
def findFunction? (f : Frame V F) (name : String) (arity : Nat) : Option F :=
  f.funs.lookup (name, arity)

/-- Defines a variable; none if the frame already has one of that name. -/
def defineVariable? (f : Frame V F) (name : String) (v : V) : Option (Frame V F) :=
  match f.findVariable? name with
  | some _ => none
  | none => some { f with vars := (name, v) :: f.vars }

/-- Defines a function; none if the frame already has one of that name and arity. -/
def defineFunction? (f : Frame V F) (name : String) (arity : Nat) (g : F) : Option (Frame V F) :=
  match f.findFunction? name arity with
  | some _ => none
  | none => some { f with funs := ((name, arity), g) :: f.funs }

/-- Changes what is kept for a variable, if there is one of that name. -/
def updateVariable (f : Frame V F) (name : String) (change : V → V) : Frame V F :=
  { f with vars := f.vars.map fun (n, v) => if n = name then (n, change v) else (n, v) }

/-- Changes what is kept for every function. -/
def mapFunctions (f : Frame V F) (change : F → F) : Frame V F :=
  { f with funs := f.funs.map fun (key, g) => (key, change g) }

/-! ## §1 Look-up after a definition -/

/-- A variable cannot be defined exactly if its name is taken. -/
theorem defineVariable?_eq_none_iff (f : Frame V F) (name : String) (v : V) :
    f.defineVariable? name v = none ↔ (f.findVariable? name).isSome := by
  unfold defineVariable?
  cases f.findVariable? name <;> simp

/-- A function cannot be defined exactly if its name and arity are taken. -/
theorem defineFunction?_eq_none_iff (f : Frame V F) (name : String) (arity : Nat) (g : F) :
    f.defineFunction? name arity g = none ↔ (f.findFunction? name arity).isSome := by
  unfold defineFunction?
  cases f.findFunction? name arity <;> simp

/-- A variable is defined in front of the others, under a name that was not taken. -/
theorem defineVariable?_eq_some {f g : Frame V F} {name : String} {v : V} : f.defineVariable? name v = some g ↔
    f.findVariable? name = none ∧ g = { f with vars := (name, v) :: f.vars } := by
  unfold defineVariable?
  cases f.findVariable? name <;> simp [eq_comm]

/-- A function is defined in front of the others, under a name and an arity that were not taken. -/
theorem defineFunction?_eq_some {f g : Frame V F} {name : String} {arity : Nat} {fn : F} :
    f.defineFunction? name arity fn = some g ↔
      f.findFunction? name arity = none ∧ g = { f with funs := ((name, arity), fn) :: f.funs } := by
  unfold defineFunction?
  cases f.findFunction? name arity <;> simp [eq_comm]

/-- Defining a variable changes the look-up of its name alone. -/
theorem findVariable?_of_defineVariable? {f g : Frame V F} {name : String} {v : V}
    (h : f.defineVariable? name v = some g) (m : String) :
    g.findVariable? m = if m = name then some v else f.findVariable? m := by
  obtain ⟨-, rfl⟩ := defineVariable?_eq_some.mp h
  by_cases hm : m = name
  · simp [findVariable?, hm]
  · have hb : (m == name) = false := by simpa using hm
    simp [findVariable?, List.lookup_cons, hb, hm]

/-- Defining a function changes the look-up of its name and arity alone. -/
theorem findFunction?_of_defineFunction? {f g : Frame V F} {name : String} {arity : Nat} {fn : F}
    (h : f.defineFunction? name arity fn = some g) (m : String) (k : Nat) :
    g.findFunction? m k = if (m, k) = (name, arity) then some fn else f.findFunction? m k := by
  obtain ⟨-, rfl⟩ := defineFunction?_eq_some.mp h
  by_cases hm : (m, k) = (name, arity)
  · simp [findFunction?, hm]
  · have hb : ((m, k) == (name, arity)) = false := by simpa using hm
    simp only [findFunction?, List.lookup_cons, hb, if_neg hm]

/-- Defining a variable touches no function. -/
theorem findFunction?_of_defineVariable? {f g : Frame V F} {name : String} {v : V}
    (h : f.defineVariable? name v = some g) (m : String) (k : Nat) :
    g.findFunction? m k = f.findFunction? m k := by
  obtain ⟨-, rfl⟩ := defineVariable?_eq_some.mp h
  rfl

/-- Defining a function touches no variable. -/
theorem findVariable?_of_defineFunction? {f g : Frame V F} {name : String} {arity : Nat} {fn : F}
    (h : f.defineFunction? name arity fn = some g) (m : String) :
    g.findVariable? m = f.findVariable? m := by
  obtain ⟨-, rfl⟩ := defineFunction?_eq_some.mp h
  rfl

end Frame

end BlockLang
