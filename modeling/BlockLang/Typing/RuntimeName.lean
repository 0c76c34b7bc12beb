/-!
# Runtime names

Names for generated code.  `mangle` turns a name of the program into one that can stand there; `LocalNames` hands
out the names of the locals of one function and never hands out a name twice.
-/

namespace BlockLang

/-- The character that stands for `c` in a runtime name. -/
def mangleChar (c : Char) : Char :=
  if c = '@' then '$' else if c = '-' then '_' else c

/-- The runtime name of a global or a function: `@` becomes `$` and `-` becomes `_`. -/
def mangle (name : String) : String :=
  String.ofList (name.toList.map mangleChar)

/-- The runtime names already taken by the locals of one function, the latest first. -/
structure LocalNames where
  taken : List String
deriving DecidableEq, Repr, Inhabited

namespace LocalNames

/-- No name is taken. -/
def empty : LocalNames := ⟨[]⟩

/-- A name with its `k`-th suffix; without one for `k = 0`. -/
def candidate (base : String) (k : Nat) : String :=
  if k = 0 then base else base ++ "_" ++ toString k

/-- The first candidate from `k` on that is not taken, among at most `n + 1` of them. -/
def firstFree (taken : List String) (base : String) : (n k : Nat) → String
  | 0, k => candidate base k
  | n + 1, k => if taken.contains (candidate base k) then firstFree taken base n (k + 1) else candidate base k

/-- A runtime name for a local called `name`, which is taken from now on.  Of one more candidate than there are
taken names, one is free. -/
def fresh (names : LocalNames) (name : String) : String × LocalNames :=
  let chosen := firstFree names.taken (mangle name) names.taken.length 0
  (chosen, ⟨chosen :: names.taken⟩)

end LocalNames

end BlockLang
