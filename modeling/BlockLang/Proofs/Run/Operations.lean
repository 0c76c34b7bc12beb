import BlockLang.Proofs.Run.Conformance

/-!
# Operations on conforming values

Operations on values that conform to the types for which the operator is defined yield a value of the type of the
binary expression, or fail for a reason that no type could have excluded: a `Nil`, a division by zero, an exponent or
an index out of range.

## Main statement

- `Operation.binary_meets`: every operator.
-/

namespace BlockLang

/-! ## §1 Results that may fail -/

/-- A result has a property, or it is a harmless error. -/
def Meets {α : Type} (P : α → Prop) : Except RunError α → Prop
  | .ok a => P a
  | .error e => e.Harmless

namespace Meets

variable {α β : Type} {P : α → Prop} {Q : β → Prop}

theorem bind {x : Except RunError α} {f : α → Except RunError β} (hx : Meets P x) (hf : ∀ a, P a → Meets Q (f a)) :
    Meets Q (x >>= f) := by
  cases x with
  | ok a => exact hf a hx
  | error e => exact hx

theorem map {x : Except RunError α} {f : α → β} (hx : Meets P x) (hf : ∀ a, P a → Q (f a)) : Meets Q (x.map f) := by
  cases x with
  | ok a => exact hf a hx
  | error e => exact hx

end Meets

/-! ## §2 Conversions -/

namespace Value

variable {v : Value} {offset : Nat}

theorem asBoolean_meets (h : v.Conforms .boolean) : Meets (fun b => v = .boolean b) (v.asBoolean offset) := by
  obtain rfl | ⟨b, rfl⟩ := h.boolean
  · exact ⟨by decide, rfl⟩
  · rfl

theorem asInteger_meets (h : v.Conforms .integer) : Meets (fun n => v = .integer n) (v.asInteger offset) := by
  obtain rfl | ⟨n, rfl⟩ := h.integer
  · exact ⟨by decide, rfl⟩
  · rfl

theorem checkedIndex_meets {index : Int} {length : Nat} :
    Meets (fun i => i < length) (checkedIndex index length offset) := by
  unfold checkedIndex
  split
  next h =>
    show index.toNat < length
    omega
  next => trivial

end Value

/-! ## §3 Operators -/

namespace Operation

variable {h : Heap} {op : Operator} {l r : Value} {a b τ : Ty} {offset : Nat}

theorem logic_meets (hop : op = .and ∨ op = .or) (hl : l.Conforms .boolean) (hr : r.Conforms .boolean) :
    Meets (fun v => v.Conforms .boolean) (logic op l r offset) := by
  refine (Value.asBoolean_meets hl).bind fun _ _ => (Value.asBoolean_meets hr).bind fun _ _ => ?_
  obtain rfl | rfl := hop <;> exact .of_name rfl

/-- Two values of one ordered type have an order, unless one of them is `Nil`. -/
theorem order_meets (ha : a.isComparable) (hl : l.Conforms a) (hr : r.Conforms a) :
    Meets (fun _ => True) (order l r offset) := by
  have hkinds : ∀ k : ValueKind, a.name = k.name → (l = .nil ∨ l.kind = k) ∧ (r = .nil ∨ r.kind = k) :=
    fun k hk => ⟨hl.kind_of_name hk, hr.kind_of_name hk⟩
  -- The ordered types have one kind of value each; both operands are of that kind or `Nil`.
  obtain ⟨k, hordered, hlk, hrk⟩ : ∃ k : ValueKind,
      k.isOrdered ∧ (l = .nil ∨ l.kind = k) ∧ (r = .nil ∨ r.kind = k) := by
    cases a with
    | integer => exact ⟨.integer, rfl, hkinds _ rfl⟩
    | decimal => exact ⟨.decimal, rfl, hkinds _ rfl⟩
    | character => exact ⟨.character, rfl, hkinds _ rfl⟩
    | string => exact ⟨.string, rfl, hkinds _ rfl⟩
    | any | nil | boolean | comparable => cases ha
  obtain rfl | hlk := hlk
  · exact Or.inl rfl
  obtain rfl | hrk := hrk
  · cases l <;> exact Or.inr rfl
  -- Two values of one ordered kind.
  subst hlk
  cases l <;> cases hordered <;> cases r <;> cases hrk <;> trivial

theorem comparison_meets (hop : op.level = 2) (ha : a.isComparable) (hl : l.Conforms a) (hr : r.Conforms a) :
    Meets (fun v => v.Conforms .boolean) (comparison h op l r offset) := by
  cases op with
  | equal | notEqual => exact .of_name rfl
  | less | greater => exact (order_meets ha hl hr).bind fun _ _ => .of_name rfl
  | and | or | add | sub | mul | div | pow => cases hop

theorem integerArithmetic_meets {m n : Int} (hop : op = .add ∨ op = .sub ∨ op = .mul ∨ op = .div) :
    Meets (fun _ => True) (integerArithmetic op m n offset) := by
  obtain rfl | rfl | rfl | rfl := hop
  · trivial
  · trivial
  · trivial
  · unfold integerArithmetic
    simp only
    split <;> trivial

theorem decimalArithmetic_meets {d e : Decimal} (hop : op = .add ∨ op = .sub ∨ op = .mul ∨ op = .div) :
    Meets (fun _ => True) (decimalArithmetic op d e offset) := by
  obtain rfl | rfl | rfl | rfl := hop
  · trivial
  · trivial
  · trivial
  · unfold decimalArithmetic
    simp only
    split <;> trivial

theorem numberArithmetic_meets (hop : op = .add ∨ op = .sub ∨ op = .mul ∨ op = .div) (ha : a.isNumeric)
    (hl : l.Conforms a) (hr : r.Conforms a) : Meets (fun v => v.Conforms a) (numberArithmetic op l r offset) := by
  -- Either operand may be `Nil`; what fails then is reported of a `Nil`.
  cases a with
  | integer =>
    obtain rfl | ⟨m, rfl⟩ := hl.integer
    · exact Or.inl rfl
    obtain rfl | ⟨n, rfl⟩ := hr.integer
    · exact Or.inr rfl
    exact (integerArithmetic_meets hop).map fun _ _ => .of_name rfl
  | decimal =>
    obtain rfl | ⟨d, rfl⟩ := hl.decimal
    · exact Or.inl rfl
    obtain rfl | ⟨e, rfl⟩ := hr.decimal
    · exact Or.inr rfl
    exact (decimalArithmetic_meets hop).map fun _ _ => .of_name rfl
  | any | nil | boolean | character | string | comparable => cases ha

/-- A sum with a `Nil` that is not joined to a string reports the `Nil`. -/
theorem numberArithmetic_of_nil (h : l = .nil ∨ r = .nil) {P : Value → Prop} :
    Meets P (numberArithmetic op l r offset) := by
  obtain rfl | rfl := h
  · exact Or.inl rfl
  · cases l <;> exact Or.inr rfl

theorem join_meets (hstring : a = .string ∨ b = .string) (hl : l.Conforms a) (hr : r.Conforms b) :
    Meets (fun v => v.Conforms .string) (arithmetic h .add l r offset) := by
  unfold arithmetic
  split
  next => exact .of_name rfl
  next hkinds =>
    -- Nothing was joined, so the operand of type string is not a string, hence `Nil`.
    have hnil : l = .nil ∨ r = .nil := by
      obtain rfl | rfl := hstring
      · exact Or.inl ((hl.kind_of_name (k := .string) rfl).resolve_right fun hk => hkinds ⟨rfl, Or.inl hk⟩)
      · exact Or.inr ((hr.kind_of_name (k := .string) rfl).resolve_right fun hk => hkinds ⟨rfl, Or.inr hk⟩)
    exact numberArithmetic_of_nil hnil

theorem arithmetic_meets (hop : op = .add ∨ op = .sub ∨ op = .mul ∨ op = .div) (ha : a.isNumeric)
    (hl : l.Conforms a) (hr : r.Conforms a) : Meets (fun v => v.Conforms a) (arithmetic h op l r offset) := by
  -- No operand is a string, so a sum is one of numbers.
  have hnumber : ∀ {v : Value}, v.Conforms a → v.kind ≠ .string := by
    intro v hv hk
    cases a with
    | integer => obtain rfl | ⟨n, rfl⟩ := hv.integer <;> cases hk
    | decimal => obtain rfl | ⟨d, rfl⟩ := hv.decimal <;> cases hk
    | any | nil | boolean | character | string | comparable => cases ha
  unfold arithmetic
  rw [if_neg fun hjoin => hjoin.2.elim (hnumber hl) (hnumber hr)]
  exact numberArithmetic_meets hop ha hl hr

theorem power_meets (ha : a.isNumeric) (hl : l.Conforms a) (hr : r.Conforms .integer) :
    Meets (fun v => v.Conforms a) (power l r offset) := by
  apply (Value.asInteger_meets hr).bind
  intro n _
  refine Meets.bind (P := fun _ => True) ?_ fun k _ => ?_
  · unfold checkedExponent
    split <;> trivial
  -- The result has the type of the base.
  cases a with
  | integer =>
    obtain rfl | ⟨m, rfl⟩ := hl.integer
    · rfl
    · exact .of_name rfl
  | decimal =>
    obtain rfl | ⟨d, rfl⟩ := hl.decimal
    · rfl
    · simp only
      split
      · exact .of_name rfl
      · trivial
  | any | nil | boolean | character | string | comparable => cases ha

/-- Every operator on values of types it takes. -/
theorem binary_meets (hτ : Ty.ofBinary? op a b = some τ) (hl : l.Conforms a) (hr : r.Conforms b) :
    Meets (fun v => v.Conforms τ) (binary h op l r offset) := by
  unfold Ty.ofBinary? at hτ
  unfold binary
  -- One case for each row of the table of operators; the type it gives says what the operands are.
  cases op with
  | and | or =>
    obtain ⟨⟨rfl, rfl⟩, heq⟩ := Option.ite_none_right_eq_some.mp hτ
    cases heq
    refine logic_meets ?_ hl hr
    decide
  | equal | notEqual | less | greater =>
    obtain ⟨⟨ha, rfl⟩, heq⟩ := Option.ite_none_right_eq_some.mp hτ
    cases heq
    exact comparison_meets rfl ha hl hr
  | add =>
    simp only at hτ
    -- A sum joins if one side is a string.
    split at hτ
    next hstring =>
      cases hτ
      exact join_meets hstring hl hr
    next =>
      obtain ⟨⟨ha, rfl⟩, heq⟩ := Option.ite_none_right_eq_some.mp hτ
      cases heq
      refine arithmetic_meets ?_ ha hl hr
      decide
  | sub | mul | div =>
    obtain ⟨⟨ha, rfl⟩, heq⟩ := Option.ite_none_right_eq_some.mp hτ
    cases heq
    refine arithmetic_meets ?_ ha hl hr
    decide
  | pow =>
    obtain ⟨⟨ha, rfl⟩, heq⟩ := Option.ite_none_right_eq_some.mp hτ
    cases heq
    exact power_meets ha hl hr

end Operation

end BlockLang
