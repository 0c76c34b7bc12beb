import BlockLang.Java.Expression
import BlockLang.Proofs.Grammar.Written
import BlockLang.Proofs.Java.Legible
import BlockLang.Proofs.Token.Spelling

/-!
# Expressions as terms of Java

The image of an expression is the term of Java with the same grouping: operators become operators, powers become calls,
and everything else becomes what it is called in Java.  The generated text of an expression is the text of its image.
Whether the image is legible depends on a few things that can be told of each node by itself.

## Main definitions

- `image`: the term of Java that has the grouping of an expression.
- `Expr.parts`: all expressions in an expression.
- `Plain`: what a node must be like for the image to be legible.

## Main statements

- `chars_image`: the generated text is the text of the image.
- `legible_image`: if all parts are plain, the image is legible.
- `read_of_plain`: then the generated text is read as the image.
- `ordered_part`: if the image is ordered, so are those of all parts.
-/

namespace BlockLang

/-! ## §1 Parts -/

namespace Expr

mutual

/-- The expressions in an expression, itself included. -/
def parts : Expr → List Expr
  | .literal n value => [.literal n value]
  | .group n inner => .group n inner :: inner.parts
  | .binary n op left right => .binary n op left right :: (left.parts ++ right.parts)
  | .variable n name => [.variable n name]
  | .element n name index => .element n name index :: index.parts
  | .call n name arguments => .call n name arguments :: allParts arguments
  | .list n elements => .list n elements :: allParts elements

/-- The expressions in several expressions. -/
def allParts : List Expr → List Expr
  | [] => []
  | e :: rest => e.parts ++ allParts rest

end

@[simp] theorem allParts_eq (es : List Expr) : allParts es = es.flatMap parts := by
  induction es with
  | nil => rfl
  | cons e rest ih => rw [allParts, ih, List.flatMap_cons]

theorem self_mem_parts (e : Expr) : e ∈ e.parts := by
  cases e <;> simp [parts]

/-- The operands, arguments or elements of an expression. -/
def children : Expr → List Expr
  | .literal _ _ | .variable _ _ => []
  | .group _ inner => [inner]
  | .binary _ _ left right => [left, right]
  | .element _ _ index => [index]
  | .call _ _ es | .list _ es => es

/-- An expression has its own parts and those of its children. -/
theorem parts_eq (e : Expr) : e.parts = e :: e.children.flatMap parts := by
  cases e <;> simp [parts, children]

mutual

/-- What an expression hands down to its children, all its parts have. -/
theorem forall_mem_parts {P : Expr → Prop} (hdown : ∀ e, P e → ∀ x ∈ e.children, P x) :
    ∀ e : Expr, P e → ∀ x ∈ e.parts, P x
  | .literal _ _, h | .variable _ _, h => List.forall_mem_singleton.mpr h
  | .group _ inner, h | .element _ _ inner, h =>
    List.forall_mem_cons.mpr ⟨h, forall_mem_parts hdown inner (hdown _ h _ List.mem_cons_self)⟩
  | .binary _ _ left right, h => by
    have hleft := forall_mem_parts hdown left (hdown _ h _ List.mem_cons_self)
    have hright := forall_mem_parts hdown right (hdown _ h _ (List.mem_cons_of_mem _ List.mem_cons_self))
    exact List.forall_mem_cons.mpr ⟨h, List.forall_mem_append.mpr ⟨hleft, hright⟩⟩
  | .call _ _ es, h | .list _ es, h =>
    List.forall_mem_cons.mpr ⟨h, forall_mem_allParts hdown es (hdown _ h)⟩

theorem forall_mem_allParts {P : Expr → Prop} (hdown : ∀ e, P e → ∀ x ∈ e.children, P x) :
    ∀ es : List Expr, (∀ e ∈ es, P e) → ∀ x ∈ allParts es, P x
  | [], _ => List.forall_mem_nil _
  | e :: rest, h => by
    obtain ⟨hfirst, hrest⟩ := List.forall_mem_cons.mp h
    exact List.forall_mem_append.mpr ⟨forall_mem_parts hdown e hfirst, forall_mem_allParts hdown rest hrest⟩

end

/-- Parts of parts are parts. -/
theorem parts_subset {e : Expr} : ∀ x ∈ e.parts, x.parts ⊆ e.parts := by
  refine forall_mem_parts (fun x hx child hchild => ?_) e (List.Subset.refl _)
  refine List.Subset.trans (fun y hy => ?_) hx
  rw [parts_eq x]
  exact List.mem_cons_of_mem _ (List.mem_flatMap.mpr ⟨child, hchild, hy⟩)

end Expr

namespace Java

/-! ## §2 Images -/

/-- The term of a number, which may have a minus sign. -/
def number : List Char → Term
  | '-' :: text => .opposite (.word text)
  | text => .word text

/-- The term of a literal. -/
def literalTerm (value : Literal) : Term :=
  match value with
  | .nil | .boolean _ => .word (literal value).toList
  | .integer _ | .decimal _ => number (literal value).toList
  | .character _ | .string _ => .quoted (literal value).toList

/-- The term of a power. -/
def powerTerm (t : SideTable) (id : Nat) (left right : Term) : Term :=
  let result := .call "Math.pow".toList [left, right]
  if t.type? id = some .integer then .cast result else result

mutual

/-- The term of Java that has the grouping of an expression. -/
def image (t : SideTable) : Expr → Term
  | .literal _ value => literalTerm value
  | .group _ inner => .group (image t inner)
  | .binary node op left right =>
    if op = .pow then powerTerm t node.id (image t left) (image t right)
    else .binary op (image t left) (image t right)
  | .variable node name => .word (variableName t node.id name).toList
  | .element node name index => .element (variableName t node.id name).toList (image t index)
  | .call node name arguments => .call (functionName t node.id name).toList (images t arguments)
  | .list _ elements => .array (images t elements)

/-- The terms of expressions. -/
def images (t : SideTable) : List Expr → List Term
  | [] => []
  | e :: rest => image t e :: images t rest

end

theorem intercalate_cons (separator text : List Char) (more : List (List Char)) :
    separator.intercalate (text :: more) = text ++ more.flatMap (separator ++ ·) := by
  induction more generalizing text with
  | nil => simp
  | cons next more ih => simp [ih]

theorem moreChars_eq (Ts : List Term) : Term.moreChars Ts = (Ts.map Term.chars).flatMap (", ".toList ++ ·) := by
  induction Ts with
  | nil => rfl
  | cons T Ts ih => simp [Term.moreChars, ih]

/-- Terms are written with commas between them. -/
theorem itemsChars_eq (Ts : List Term) : Term.itemsChars Ts = ", ".toList.intercalate (Ts.map Term.chars) := by
  cases Ts with
  | nil => rfl
  | cons T Ts => rw [Term.itemsChars, moreChars_eq, List.map_cons, intercalate_cons]

theorem chars_number (text : List Char) : (number text).chars = text := by
  unfold number
  split <;> simp [Term.chars]

theorem chars_literalTerm (value : Literal) : (literalTerm value).chars = (literal value).toList := by
  cases value <;> simp [literalTerm, Term.chars, chars_number]

mutual

/-- The generated text of an expression is the text of its image. -/
theorem chars_image (t : SideTable) : ∀ e : Expr, (image t e).chars = (expression t e).toList
  | .literal _ value => by rw [image, expression, chars_literalTerm]
  | .group _ inner => by simp [image, expression, Term.chars, chars_image t inner]
  | .binary node op left right => by
    rw [image, expression]
    split
    · unfold powerTerm power
      -- Only an integer power has a cast.
      split <;> simp [Term.chars, Term.itemsChars, Term.moreChars, intKeyword, chars_image t left, chars_image t right]
    · simp [Term.chars, chars_image t left, chars_image t right]
  | .variable node name => by rw [image, expression, Term.chars]
  | .element node name index => by simp [image, expression, Term.chars, chars_image t index]
  | .call node name arguments => by simp [image, expression, Term.chars, itemsChars_images t arguments]
  | .list _ elements => by simp [image, expression, Term.chars, itemsChars_images t elements]

theorem itemsChars_images (t : SideTable) (es : List Expr) :
    Term.itemsChars (images t es) = (commaSeparated (expressions t es)).toList := by
  rw [itemsChars_eq, commaSeparated, String.toList_intercalate, map_chars_images t es]

theorem map_chars_images (t : SideTable) :
    ∀ es : List Expr, (images t es).map Term.chars = (expressions t es).map String.toList
  | [] => rfl
  | e :: rest => by simp [images, expressions, chars_image t e, map_chars_images t rest]

end

/-! ## §3 Words and literals -/

theorem isWordChar_of_isDigit {c : Char} (h : c.isDigit = true) : isWordChar c = true := by
  simp [isWordChar, Char.isAlphanum, h]

theorem isWord_toDigits (n : Nat) : IsWord (Nat.toDigits 10 n) :=
  ⟨Nat.toDigits_ne_nil, fun c hc => isWordChar_of_isDigit (Digits.isDigit_of_mem n c hc)⟩

theorem IsWord.append {text more : List Char} (h : IsWord text) (hmore : ∀ c ∈ more, isWordChar c) :
    IsWord (text ++ more) :=
  ⟨by simp [h.1], List.forall_mem_append.mpr ⟨h.2, hmore⟩⟩

/-- A number is a word, with a minus sign or without. -/
theorem legible_number {sign text : List Char} (hsign : sign = [] ∨ sign = ['-']) (h : IsWord text) :
    (number (sign ++ text)).Legible := by
  rcases hsign with rfl | rfl
  · have hnumber : number text = .word text := by
      unfold number
      split
      -- A word does not begin with a minus sign.
      · rename_i rest
        have hminus := h.2 '-' List.mem_cons_self
        simp [isWordChar] at hminus
      · rfl
    rw [List.nil_append, hnumber]
    exact h
  · exact ⟨text, rfl, h⟩

theorem isWord_plainMagnitude (d : Decimal) : IsWord d.plainMagnitude := by
  unfold Decimal.plainMagnitude
  simp only [Digits.ofNat_eq_toDigits]
  split_ifs with hscale
  · refine (isWord_toDigits _).append fun c hc => ?_
    rw [List.eq_of_mem_replicate hc]
    decide
  · obtain ⟨whole, fraction, hplace, hwhole, hfraction, -, -⟩ :=
      Decimal.placePoint_eq d.digits.natAbs (show 0 < d.scale.toNat by omega)
    obtain ⟨hne, hall⟩ := hwhole.digits
    rw [hplace]
    refine IsWord.append ⟨hne, fun c hc => isWordChar_of_isDigit (hall c hc)⟩ ?_
    exact List.forall_mem_cons.mpr ⟨by decide, fun c hc => isWordChar_of_isDigit (hfraction c hc)⟩

theorem legible_literalTerm (value : Literal) : (literalTerm value).Legible := by
  cases value with
  | nil =>
    have hword : IsWord (literal .nil).toList := by decide
    exact hword
  | boolean b =>
    have hword : ∀ b, IsWord (literal (.boolean b)).toList := by decide
    exact hword b
  | integer n =>
    obtain ⟨sign, hdigits, hsign, -⟩ := Digits.ofInt_eq n
    rw [literalTerm, literal, Digits.text, String.toList_ofList, hdigits]
    exact legible_number hsign (isWord_toDigits _)
  | decimal d =>
    rw [literalTerm, literal, Decimal.plain, String.toList_ofList]
    split_ifs
    · exact legible_number (Or.inr rfl) (isWord_plainMagnitude d)
    · exact legible_number (Or.inl rfl) (isWord_plainMagnitude d)
  | character c =>
    refine ⟨'\'', [Escape.encodeChar c], Or.inl rfl, by simp [literal], ?_⟩
    exact List.forall_mem_singleton.mpr (isElement_encodeChar (Or.inl rfl) c)
  | string s =>
    refine ⟨'"', s.toList.map Escape.encodeChar, Or.inr rfl, by simp [literal, Escape.encode, List.flatMap_def], ?_⟩
    exact List.forall_mem_map.mpr fun c _ => isElement_encodeChar (Or.inr rfl) c

/-! ## §4 Plain nodes -/

/-- What a node must be like for the image of an expression to be legible: operators bind as the tree says, both in the
source and, where that differs, in Java; groups hold operators; and names become words. -/
def Plain (t : SideTable) : Expr → Prop
  | .group _ inner => inner.isBinary = true
  | .binary _ op left right => op.level ≤ left.level ∧ op.level < right.level ∧
      (op.level = 2 → left.level ≠ 2) ∧ (op = .and → ∀ node a b, left ≠ .binary node .or a b)
  | .variable node name | .element node name _ => IsWord (variableName t node.id name).toList
  | .call node name _ => IsWord (functionName t node.id name).toList
  | .literal _ _ | .list _ _ => True

/-- Java's levels are finer than those of the source: where operators of one level stand beside each other, they need a
look. -/
theorem level_le_of_level_le {op inner : Operator} (h : op.level ≤ inner.level)
    (hcompare : op.level = 2 → inner.level ≠ 2) (hlogic : ¬ (op = .and ∧ inner = .or)) : level op ≤ level inner := by
  revert h hcompare hlogic
  cases op <;> cases inner <;> decide

theorem level_lt_of_level_lt {op inner : Operator} (h : op.level < inner.level) : level op < level inner := by
  revert h
  cases op <;> cases inner <;> decide

theorem level_powerTerm (t : SideTable) (id : Nat) (left right : Term) : (powerTerm t id left right).level = 7 := by
  unfold powerTerm
  split <;> rfl

theorem level_number (text : List Char) : (number text).level = 7 := by
  unfold number
  split <;> rfl

theorem level_literalTerm (value : Literal) : (literalTerm value).level = 7 := by
  cases value with
  | integer | decimal => exact level_number _
  | nil | boolean | character | string => rfl

/-- The image of an expression is an operand, unless the expression is an operator other than a power. -/
theorem level_image (t : SideTable) (e : Expr) : (image t e).level = 7 ∨
    ∃ node op left right, e = .binary node op left right ∧ (image t e).level = level op := by
  cases e with
  | literal node value => exact Or.inl (level_literalTerm value)
  | binary node op left right =>
    rw [image]
    split_ifs
    · exact Or.inl (level_powerTerm _ _ _ _)
    · exact Or.inr ⟨node, op, left, right, rfl, rfl⟩
  | group | «variable» | element | call | list => exact Or.inl rfl

theorem image_group_ne_word {t : SideTable} {inner : Expr} (h : inner.isBinary = true) (text : List Char) :
    image t inner ≠ .word text := by
  cases inner with
  | binary node op left right =>
    rw [image, powerTerm]
    split_ifs <;> simp
  | literal | group | «variable» | element | call | list => cases h

mutual

/-- If all parts of an expression are plain, its image is legible. -/
theorem legible_image (t : SideTable) : ∀ e : Expr, (∀ x ∈ e.parts, Plain t x) → (image t e).Legible
  | .literal _ value, _ => legible_literalTerm value
  | .group _ inner, h => by
    obtain ⟨hbinary, hinner⟩ := List.forall_mem_cons.mp h
    exact ⟨image_group_ne_word hbinary _, legible_image t inner hinner⟩
  | .binary node op left right, h => by
    obtain ⟨⟨hleft, hright, hcompare, hlogic⟩, hparts⟩ := List.forall_mem_cons.mp h
    obtain ⟨hl, hr⟩ := List.forall_mem_append.mp hparts
    have hlegible := legible_image t left hl
    have hlegible' := legible_image t right hr
    rw [image]
    split_ifs with hpow
    -- The operands of a power are arguments of a call.
    · have hcall : Term.Legible (.call "Math.pow".toList [image t left, image t right]) :=
        ⟨by decide, hlegible, hlegible', trivial⟩
      unfold powerTerm
      split_ifs
      · exact ⟨rfl, hcall⟩
      · exact hcall
    · refine ⟨hpow, ?_, ?_, hlegible, hlegible'⟩
      · rcases level_image t left with hseven | ⟨node', inner, a, b, rfl, hlevel⟩
        · rw [hseven]
          exact Nat.le_of_lt (level_lt_seven op)
        · rw [hlevel]
          exact level_le_of_level_le hleft hcompare fun ⟨hand, hor⟩ => hlogic hand node' a b (hor ▸ rfl)
      · rcases level_image t right with hseven | ⟨node', inner, a, b, rfl, hlevel⟩
        · rw [hseven]
          exact level_lt_seven op
        · rw [hlevel]
          exact level_lt_of_level_lt hright
  | .variable node name, h => h (.variable node name) (Expr.self_mem_parts _)
  | .element _ _ index, h => by
    obtain ⟨hname, hindex⟩ := List.forall_mem_cons.mp h
    exact ⟨hname, legible_image t index hindex⟩
  | .call _ _ arguments, h => by
    obtain ⟨hname, harguments⟩ := List.forall_mem_cons.mp h
    exact ⟨hname, allLegible_images t arguments harguments⟩
  | .list _ elements, h => allLegible_images t elements (List.forall_mem_cons.mp h).2

theorem allLegible_images (t : SideTable) :
    ∀ es : List Expr, (∀ x ∈ Expr.allParts es, Plain t x) → Term.AllLegible (images t es)
  | [], _ => trivial
  | e :: rest, h => by
    obtain ⟨he, hrest⟩ := List.forall_mem_append.mp h
    exact ⟨legible_image t e he, allLegible_images t rest hrest⟩

end

/-- If all parts of an expression are plain, its generated text is read with its grouping. -/
theorem read_of_plain {t : SideTable} {e : Expr} (h : ∀ x ∈ e.parts, Plain t x) :
    read (expression t e) = some (image t e) := by
  have hread := read_of_legible (legible_image t e h)
  rwa [chars_image, String.ofList_toList] at hread

/-! ## §5 Ordered images -/

/-- The operands of an operator are ordered in an ordered image, also where they are arguments of a call. -/
theorem ordered_operands {t : SideTable} {node : Node} {op : Operator} {left right : Expr}
    (h : (image t (.binary node op left right)).Ordered) : (image t left).Ordered ∧ (image t right).Ordered := by
  rw [image] at h
  split_ifs at h with hpow
  · have harguments : Term.AllOrdered [image t left, image t right] := by
      unfold powerTerm at h
      split_ifs at h
      · exact h
      · exact h
    exact ⟨harguments.1, harguments.2.1⟩
  · obtain ⟨-, -, hleft, hright⟩ := h
    exact ⟨hleft, hright⟩

theorem forall_ordered {t : SideTable} {es : List Expr} (h : Term.AllOrdered (images t es)) :
    ∀ e ∈ es, (image t e).Ordered := by
  induction es with
  | nil => exact List.forall_mem_nil _
  | cons e rest ih => exact List.forall_mem_cons.mpr ⟨h.1, ih h.2⟩

/-- If the image of an expression is ordered, so are those of its parts. -/
theorem ordered_part {t : SideTable} {e : Expr} (h : (image t e).Ordered) : ∀ x ∈ e.parts, (image t x).Ordered := by
  refine Expr.forall_mem_parts (fun x hx => ?_) e h
  cases x with
  | literal | «variable» => exact List.forall_mem_nil _
  | group node inner => exact List.forall_mem_singleton.mpr hx
  | binary node op left right =>
    obtain ⟨hleft, hright⟩ := ordered_operands hx
    exact List.forall_mem_cons.mpr ⟨hleft, List.forall_mem_singleton.mpr hright⟩
  | element node name index => exact List.forall_mem_singleton.mpr hx
  | call node name arguments => exact forall_ordered hx
  | list node elements => exact forall_ordered hx

end Java

end BlockLang
