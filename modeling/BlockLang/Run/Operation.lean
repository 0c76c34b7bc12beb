import BlockLang.Decimal.Arithmetic
import BlockLang.Run.Error
import BlockLang.Value.Heap

/-!
# Operations on values

Conversions of values and the binary operators on them.  Operators look at the heap only to compare and to print
lists; none of them changes it.
-/

namespace BlockLang

-- Powers of numbers are those of the core library here, also where the algebraic hierarchy is in scope.
attribute [local instance (high)] instPowNat

namespace Value

/-! ## §1 Conversions -/

/-- The boolean that a value must be. -/
def asBoolean (v : Value) (offset : Nat) : Except RunError Bool :=
  match v with
  | .boolean b => .ok b
  | other => .error (.typeFault (.expected .boolean other.kind) offset)

/-- The integer that a value must be. -/
def asInteger (v : Value) (offset : Nat) : Except RunError Int :=
  match v with
  | .integer n => .ok n
  | other => .error (.typeFault (.expected .integer other.kind) offset)

/-- The list that a value must be. -/
def asList (v : Value) (offset : Nat) : Except RunError ListRef :=
  match v with
  | .list ref => .ok ref
  | other => .error (.typeFault (.expected .list other.kind) offset)

/-- The place that an index denotes in a list of the given length. -/
def checkedIndex (index : Int) (length offset : Nat) : Except RunError Nat :=
  if 0 ≤ index ∧ index < length then .ok index.toNat else .error (.indexOutOfBounds index length offset)

end Value

namespace Operation

/-! ## §2 Logic -/

/-- `&&` and `||` on two values that are both known. -/
def logic (op : Operator) (left right : Value) (offset : Nat) : Except RunError Value := do
  let l ← left.asBoolean offset
  let r ← right.asBoolean offset
  match op with
  | .and => .ok (.boolean (l && r))
  | .or => .ok (.boolean (l || r))
  | other => .error (.typeFault (.notLogical other) offset)

/-! ## §3 Comparison -/

/-- The order of two texts by their characters. -/
def textOrder (a b : String) : Ordering :=
  if a < b then .lt else if a = b then .eq else .gt

/-- The order of two values of one ordered type. -/
def order (left right : Value) (offset : Nat) : Except RunError Ordering :=
  match left, right with
  | .integer a, .integer b => .ok (compare a b)
  | .decimal a, .decimal b => .ok (a.order b)
  | .character a, .character b => .ok (compare a.toNat b.toNat)
  | .string a, .string b => .ok (textOrder a b)
  | a, b => .error (.typeFault (.unordered a.kind b.kind) offset)

/-- `==`, `!=`, `<` and `>`. -/
def comparison (h : Heap) (op : Operator) (left right : Value) (offset : Nat) : Except RunError Value :=
  match op with
  | .equal => .ok (.boolean (h.same left right))
  | .notEqual => .ok (.boolean (!h.same left right))
  | .less => do return .boolean ((← order left right offset) == .lt)
  | .greater => do return .boolean ((← order left right offset) == .gt)
  | other => .error (.typeFault (.notComparison other) offset)

/-! ## §4 Arithmetic -/

/-- Arithmetic on integers; a quotient is truncated toward zero. -/
def integerArithmetic (op : Operator) (a b : Int) (offset : Nat) : Except RunError Int :=
  match op with
  | .add => .ok (a + b)
  | .sub => .ok (a - b)
  | .mul => .ok (a * b)
  | .div => if b = 0 then .error (.divisionByZero offset) else .ok (a.tdiv b)
  | other => .error (.typeFault (.notArithmetic other) offset)

/-- Arithmetic on decimals. -/
def decimalArithmetic (op : Operator) (a b : Decimal) (offset : Nat) : Except RunError Decimal :=
  match op with
  | .add => .ok (a.add b)
  | .sub => .ok (a.sub b)
  | .mul => .ok (a.mul b)
  | .div =>
    match a.div? b with
    | some q => .ok q
    | none => .error (.divisionByZero offset)
  | other => .error (.typeFault (.notArithmetic other) offset)

/-- Arithmetic on two numbers of one type. -/
def numberArithmetic (op : Operator) (left right : Value) (offset : Nat) : Except RunError Value :=
  match left, right with
  | .integer a, .integer b => (integerArithmetic op a b offset).map .integer
  | .decimal a, .decimal b => (decimalArithmetic op a b offset).map .decimal
  | a, b => .error (.typeFault (.operands op a.kind b.kind) offset)

/-- `+`, `-`, `*` and `/`.  A sum with a string joins the printed forms. -/
def arithmetic (h : Heap) (op : Operator) (left right : Value) (offset : Nat) : Except RunError Value :=
  if op = .add ∧ (left.kind = .string ∨ right.kind = .string) then
    .ok (.string (h.display left ++ h.display right))
  else
    numberArithmetic op left right offset

/-! ## §5 Powers -/

/-- The largest exponent. -/
def maxExponent : Nat := 65536

/-- The exponent that an integer denotes. -/
def checkedExponent (exponent : Int) (offset : Nat) : Except RunError Nat :=
  if 0 ≤ exponent ∧ exponent ≤ maxExponent then .ok exponent.toNat else .error (.invalidExponent offset)

/-- `^`. -/
def power (base exponent : Value) (offset : Nat) : Except RunError Value := do
  let n ← checkedExponent (← exponent.asInteger offset) offset
  match base with
  | .integer b => .ok (.integer (b ^ n))
  | .decimal b =>
    match b.pow? n with
    | some d => .ok (.decimal d)
    | none => .error (.invalidExponent offset)
  | other => .error (.typeFault (.base other.kind) offset)

/-! ## §6 Any operator -/

/-- Applies an operator to two values. -/
def binary (h : Heap) (op : Operator) (left right : Value) (offset : Nat) : Except RunError Value :=
  match op with
  | .and | .or => logic op left right offset
  | .equal | .notEqual | .less | .greater => comparison h op left right offset
  | .add | .sub | .mul | .div => arithmetic h op left right offset
  | .pow => power left right offset

end Operation

end BlockLang
