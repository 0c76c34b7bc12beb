import BlockLang.Typing.Checker

/-!
# Checking expressions

Operands, indices, arguments and elements are checked before the expression they belong to, from left to right.
A list that is not indexed has type `Any`, so it fits only where any value is accepted.
-/

namespace BlockLang

-- Powers of numbers are those of the core library here, also where the algebraic hierarchy is in scope.
attribute [local instance (high)] instPowNat

namespace Literal

/-- Integer literals have at most this many bits. -/
def integerBits : Nat := 32

/-- The least number that rounds to an infinite double: halfway between the greatest finite double and the next
power of two. -/
def doubleLimit : Nat := 2 ^ (1024 : Nat) - 2 ^ (970 : Nat)

/-- The largest scale of a nonzero number that can be converted to a double: its opposite is an exponent of 32
bits. -/
def maxScale : Nat := 2 ^ (31 : Nat)

/-- Whether a number cannot be converted to a finite double, because it is too large or has too many digits after
the point.  Its order of magnitude decides all but the closest cases. -/
def exceedsDouble (d : Decimal) : Bool :=
  let magnitude := d.digits.natAbs
  let order : Int := (Digits.ofNat magnitude).length - d.scale
  if magnitude = 0 then false
  else if maxScale < d.scale then true
  else if order ≤ 308 then false
  else if 310 ≤ order then true
  else doubleLimit * 10 ^ d.scale.toNat ≤ magnitude * 10 ^ (-d.scale).toNat

end Literal

namespace Checker

/-- The type of a literal.  Numbers must fit the machine types of generated code. -/
def typeOfLiteral (value : Literal) (offset : Nat) : Checker Ty :=
  match value with
  | .nil => return .nil
  | .boolean _ => return .boolean
  | .character _ => return .character
  | .string _ => return .string
  | .integer n => if n.natAbs < 2 ^ Literal.integerBits then return .integer else throw (.integerTooLarge offset)
  | .decimal d => if Literal.exceedsDouble d then throw (.decimalTooLarge offset) else return .decimal

/-- Fails unless each argument may be stored in its parameter. -/
def requireArguments : List Ty → List Ty → List Expr → Checker Unit
  | target :: targets, found :: types, argument :: arguments => do
    requireAssignable target found argument.offset
    requireArguments targets types arguments
  | _, _, _ => return ()

mutual

/-- Checks an expression and yields its type. -/
def expression : Expr → Checker Ty
  | .literal node value => do
    setType node.id (← typeOfLiteral value node.offset)
  | .group node inner =>
    if inner.isBinary then do
      setType node.id (← expression inner)
    else
      throw (.invalidGroup node.offset)
  | .binary node op left right => do
    let l ← expression left
    let r ← expression right
    match Ty.ofBinary? op l r with
    | some t => setType node.id t
    | none => throw (.invalidOperands op l r node.offset)
  | .variable node name => do
    let v ← resolveVariable name node.offset
    setVariable node.id v
    setType node.id (if v.list then .any else v.type)
  | .element node name index => do
    requireAssignable .integer (← expression index) index.offset
    let v ← resolveVariable name node.offset
    if v.list then
      setVariable node.id v
      setType node.id v.type
    else
      throw (.notAList name node.offset)
  | .call node name arguments => do
    let types ← expressions arguments
    let f ← resolveFunction name arguments.length node.offset
    requireArguments f.parameters types arguments
    setFunction node.id f
    setType node.id f.returns
  | .list node elements => do
    discard (expressions elements)
    setType node.id .any

/-- Checks expressions from left to right and yields their types. -/
def expressions : List Expr → Checker (List Ty)
  | [] => return []
  | e :: rest => do
    let t ← expression e
    return t :: (← expressions rest)

end

/-- Checks the elements of a list whose elements must have type `target`. -/
def elements (target : Ty) : List Expr → Checker Unit
  | [] => return ()
  | e :: rest => do
    requireAssignable target (← expression e) e.offset
    elements target rest

/-- Checks a condition, which must be a boolean. -/
def condition (e : Expr) : Checker Unit := do
  requireAssignable .boolean (← expression e) e.offset

/-- The type of the elements if the expression names a list without indexing it. -/
def listElement? : Expr → Checker (Option Ty)
  | .variable _ name => do
    match (← get).scope.findVariable? name with
    | some v => return if v.list then some v.type else none
    | none => return none
  | _ => return none

end Checker

end BlockLang
