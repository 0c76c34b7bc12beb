import BlockLang.Typing.Expression

/-!
# Checking statements

A block has a scope of its own; so has each arm of a switch, its value included.  A local declared from a list
that is not indexed is another name for that list.
-/

namespace BlockLang

namespace Checker

/-! ## §1 Declarations and assignments -/

/-- The type of a local, and whether it holds a list, from the type that is written, the type of its initial
value and the element type of the list that the value names. -/
def declaredType (node : Node) (name : String) (value : Option Expr) (declared found aliased : Option Ty) :
    Checker (Ty × Bool) :=
  match declared, found, aliased with
  | none, _, some element => return (element, true)
  | some target, some type, _ => do
    requireAssignable target type ((value.map Expr.offset).getD node.offset)
    return (target, false)
  | some target, none, _ => return (target, false)
  | none, some type, none => return (type, false)
  | none, none, none => throw (.missingDeclarationType name node.offset)

/-- Checks a local declaration. -/
def declaration (node : Node) (name : String) (type : Option String) (value : Option Expr) : Checker Unit := do
  let declared ← resolveType? type node.offset
  let (found, aliased) ←
    match value with
    | none => pure (none, none)
    | some e => do
      let t ← expression e
      pure (some t, ← listElement? e)
  let (t, list) ← declaredType node name value declared found aliased
  defineVariable node ⟨name, ← freshName name, t, true, list⟩

/-- Checks that a value may be stored: a list into a variable that holds a list of the same element type,
anything else according to its type. -/
def storable (target found : Ty) (targetElement valueElement : Option Ty) (offset : Nat) : Checker Unit :=
  match targetElement, valueElement with
  | some t, some e => if t = e then return () else throw (.notAssignable t e offset)
  | some _, none => throw (.listRequired offset)
  | none, _ => requireAssignable target found offset

/-- Whether an expression may stand on the left of an assignment. -/
def isReceiver : Expr → Bool
  | .variable .. | .element .. => true
  | _ => false

/-- Checks an assignment. -/
def assignment (offset : Nat) (receiver value : Expr) : Checker Unit := do
  if isReceiver receiver then
    let target ← expression receiver
    let found ← expression value
    storable target found (← listElement? receiver) (← listElement? value) value.offset
  else
    throw (.invalidReceiver offset)

/-- Checks the value of an arm, which must have exactly the type of the condition. -/
def caseValue (type : Ty) : Option Expr → Checker Unit
  | none => return ()
  | some value => do
    let found ← expression value
    if found = type then return () else throw (.notAssignable type found value.offset)

/-! ## §2 Statements -/

mutual

/-- Checks a statement. -/
def statement : Statement → Checker Unit
  | .expression _ e => discard (expression e)
  | .declaration node name type value => declaration node name type value
  | .assignment offset receiver value => assignment offset receiver value
  | .conditional offset test onTrue onFalse => do
    condition test
    if onTrue.isEmpty then
      throw (.emptyBranch offset)
    else
      inScope (statements onTrue)
      if onFalse.isEmpty then return () else inScope (statements onFalse)
  | .switch _ subject arms => do
    cases (← expression subject) arms
  | .loop _ test body => do
    condition test
    inScope (statements body)
  | .returning _ value => do
    let found ← expression value
    requireAssignable (← get).returns found value.offset

/-- Checks statements in order. -/
def statements : List Statement → Checker Unit
  | [] => return ()
  | first :: rest => do
    statement first
    statements rest

/-- Checks an arm of a switch whose condition has the given type. -/
def case (type : Ty) : Case → Checker Unit
  | .mk _ value body => inScope do
    caseValue type value
    statements body

/-- Checks the arms of a switch in order. -/
def cases (type : Ty) : List Case → Checker Unit
  | [] => return ()
  | arm :: rest => do
    case type arm
    cases type rest

end

end Checker

end BlockLang
