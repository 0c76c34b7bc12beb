import BlockLang.Operator
import BlockLang.Proofs.Token.Form

/-!
# How Java reads expressions

The Java text of an expression is cut into words, quoted literals, operators and brackets.  Operands are read one after
the other; where an operator stands between two of them, it is hung into the tree of what has been read so far: as low
as there are operators above that bind less tightly, and no lower.  So multiplication and division bind most tightly,
then addition and subtraction, comparisons by order, equality, conjunction and disjunction, and operators that bind
alike associate to the left.

This is the fragment of Java's grammar that expressions of programs are written in: names and numbers, quoted literals,
opposites, casts to `int`, groups, calls, indexed arrays and array initializers.

## Main definitions

- `Lexeme`, `lexemes`: the pieces of a text.
- `Term`: an expression of Java.
- `Term.attach`: how one more operator and operand change what has been read.
- `read`: the term that Java reads in a text.

## Main statement

- `ordered_of_read`: in what is read, operators bind their operands as tightly as Java says.
-/

namespace BlockLang.Java

/-! ## §1 Pieces of a text -/

/-- A piece of a text. -/
inductive Lexeme where
  /-- A name, a number or a reserved word. -/
  | word (text : List Char)
  /-- A character or a string, with its quotes. -/
  | quoted (text : List Char)
  | operator (text : List Char)
  /-- A bracket or a comma. -/
  | bracket (c : Char)
deriving DecidableEq, Repr

/-- The characters of words.  A point stands in numbers and between the parts of a qualified name. -/
def isWordChar (c : Char) : Bool :=
  c.isAlphanum || c = '_' || c = '$' || c = '.'

/-- The characters of operators. -/
def signs : List Char :=
  ['+', '-', '*', '/', '<', '>', '=', '!', '&', '|']

/-- The piece that has been begun but not ended. -/
inductive Pending where
  | nothing
  | word (text : List Char)
  | operator (text : List Char)
  | quoted (quote : Char) (text : List Char)
  /-- A quoted literal whose last character is a backslash. -/
  | escaped (quote : Char) (text : List Char)
deriving DecidableEq, Repr

/-- What a piece that has been begun becomes at its end.  A literal that is not closed is nothing that can be read. -/
def Pending.close : Pending → List Lexeme
  | .nothing => []
  | .word text => [.word text]
  | .operator text | .quoted _ text | .escaped _ text => [.operator text]

/-- A character outside of all pieces. -/
def begin (c : Char) : List Lexeme × Pending :=
  if c = ' ' then ([], .nothing)
  else if isWordChar c then ([], .word [c])
  else if c ∈ signs then ([], .operator [c])
  else if c = '\'' ∨ c = '"' then ([], .quoted c [c])
  else ([.bracket c], .nothing)

/-- One more character: the pieces that it ends, and the piece that it begins or goes on with. -/
def Pending.step : Pending → Char → List Lexeme × Pending
  | .nothing, c => begin c
  | .word text, c => if isWordChar c then ([], .word (text ++ [c])) else (.word text :: (begin c).1, (begin c).2)
  | .operator text, c =>
    if c ∈ signs then ([], .operator (text ++ [c])) else (.operator text :: (begin c).1, (begin c).2)
  | .quoted quote text, c =>
    if c = '\\' then ([], .escaped quote (text ++ [c]))
    else if c = quote then ([.quoted (text ++ [c])], .nothing)
    else ([], .quoted quote (text ++ [c]))
  | .escaped quote text, c => ([], .quoted quote (text ++ [c]))

/-- The pieces of a text behind a piece that has been begun. -/
def lexemesFrom : Pending → List Char → List Lexeme
  | pending, [] => pending.close
  | pending, c :: rest => (pending.step c).1 ++ lexemesFrom (pending.step c).2 rest

/-- The pieces of a text. -/
def lexemes (text : List Char) : List Lexeme :=
  lexemesFrom .nothing text

/-! ## §2 Terms -/

/-- An expression of Java. -/
inductive Term where
  | word (text : List Char)
  | quoted (text : List Char)
  /-- An operand with a minus sign before it. -/
  | opposite (operand : Term)
  /-- An operand with a cast to `int` before it. -/
  | cast (operand : Term)
  | group (inner : Term)
  | binary (op : Operator) (left right : Term)
  | element (name : List Char) (index : Term)
  | call (method : List Char) (arguments : List Term)
  | array (elements : List Term)
deriving Repr, Inhabited

/-- How tightly Java binds an operator.  The operators are those of Java, which writes powers as calls. -/
def level : Operator → Nat
  | .or => 1
  | .and => 2
  | .equal | .notEqual => 3
  | .less | .greater => 4
  | .add | .sub => 5
  | .mul | .div | .pow => 6

/-- The operator that a piece of a text is. -/
def operator? (text : List Char) : Option Operator :=
  Operator.all.find? fun op => op ≠ .pow ∧ op.symbol.toList = text

/-- The keyword of casts. -/
def intKeyword : List Char := ['i', 'n', 't']

namespace Term

/-- How tightly the outermost operator binds; 7 for an operand. -/
def level : Term → Nat
  | .binary op _ _ => Java.level op
  | _ => 7

/-- What has been read, with one more operator and the operand behind it.  Only an operator that binds more tightly
takes the right operand of what has been read away from it. -/
def attach : Term → Operator → Term → Term
  | .binary outer left right, op, operand =>
    if Java.level outer < Java.level op then .binary outer left (right.attach op operand)
    else .binary op (.binary outer left right) operand
  | read, op, operand => .binary op read operand

end Term

/-! ## §3 Reading -/

mutual

/-- An operand, with what stands behind it.  The number bounds the depth of the reading. -/
def operand : Nat → List Lexeme → Option (Term × List Lexeme)
  | 0, _ => none
  | n + 1, .word method :: .bracket '(' :: rest =>
    (items n ')' rest).map fun (arguments, rest) => (.call method arguments, rest)
  | n + 1, .word name :: .bracket '[' :: rest =>
    match term n rest with
    | some (index, .bracket ']' :: rest) => some (.element name index, rest)
    | _ => none
  | _ + 1, .word text :: rest => some (.word text, rest)
  | _ + 1, .quoted text :: rest => some (.quoted text, rest)
  | n + 1, .operator ['-'] :: rest => (operand n rest).map fun (x, rest) => (.opposite x, rest)
  | n + 1, .bracket '(' :: .word ['i', 'n', 't'] :: .bracket ')' :: rest =>
    (operand n rest).map fun (x, rest) => (.cast x, rest)
  | n + 1, .bracket '(' :: rest =>
    match term n rest with
    | some (inner, .bracket ')' :: rest) => some (.group inner, rest)
    | _ => none
  | n + 1, .bracket '\x7b' :: rest =>
    (items n '\x7d' rest).map fun (elements, rest) => (.array elements, rest)
  | _ + 1, _ => none

/-- Operands with operators between them. -/
def term : Nat → List Lexeme → Option (Term × List Lexeme)
  | 0, _ => none
  | n + 1, pieces => (operand n pieces).bind fun (first, rest) => chain n first rest

/-- The operators and operands behind what has been read. -/
def chain : Nat → Term → List Lexeme → Option (Term × List Lexeme)
  | 0, _, _ => none
  | n + 1, read, .operator text :: rest =>
    (operator? text).bind fun op => (operand n rest).bind fun (x, rest) => chain n (read.attach op x) rest
  | _ + 1, read, rest => some (read, rest)

/-- Terms with commas between them, up to the closing bracket. -/
def items : Nat → Char → List Lexeme → Option (List Term × List Lexeme)
  | 0, _, _ => none
  | n + 1, close, pieces =>
    if pieces.head? = some (.bracket close) then some ([], pieces.tail)
    else (term n pieces).bind fun (first, rest) => (more n close rest).map fun (others, rest) => (first :: others, rest)

/-- The terms behind the first one. -/
def more : Nat → Char → List Lexeme → Option (List Term × List Lexeme)
  | 0, _, _ => none
  | n + 1, close, pieces =>
    if pieces.head? = some (.bracket close) then some ([], pieces.tail)
    else if pieces.head? = some (.bracket ',') then
      (term n pieces.tail).bind fun (next, rest) => (more n close rest).map fun (others, rest) => (next :: others, rest)
    else none

end

/-- The term that Java reads in a text, if the whole of it is one. -/
def read (text : String) : Option Term :=
  match term (2 * (lexemes text.toList).length) (lexemes text.toList) with
  | some (found, []) => some found
  | _ => none

/-! ## §4 What is read -/

namespace Term

mutual

/-- Operators bind in a term as Java says: each operator below another one binds more tightly, on the left possibly as
tightly. -/
def Ordered : Term → Prop
  | .word _ | .quoted _ => True
  | .opposite x | .cast x | .group x => x.Ordered
  | .binary op left right =>
    Java.level op ≤ left.level ∧ Java.level op < right.level ∧ left.Ordered ∧ right.Ordered
  | .element _ index => index.Ordered
  | .call _ arguments => AllOrdered arguments
  | .array elements => AllOrdered elements

/-- Each of several terms is ordered. -/
def AllOrdered : List Term → Prop
  | [] => True
  | x :: rest => x.Ordered ∧ AllOrdered rest

end

end Term

theorem level_lt_seven (op : Operator) : level op < 7 := by
  cases op <;> decide

/-- What binds less tightly than a term and an operator binds less tightly than the term with the operator hung in. -/
theorem lt_level_attach {n : Nat} {read : Term} {op : Operator} (hread : n < read.level) (hop : n < level op)
    (x : Term) : n < (read.attach op x).level := by
  cases read with
  | binary outer left right =>
    unfold Term.attach
    split_ifs
    · exact hread
    · exact hop
  | word | quoted | opposite | cast | group | element | call | array => exact hop

/-- Hanging an operator in keeps a term ordered. -/
theorem Term.Ordered.attach {x : Term} (hx : x.Ordered) (hoperand : x.level = 7) (op : Operator) :
    ∀ {read : Term}, read.Ordered → (read.attach op x).Ordered
  | .binary outer left right, hread => by
    obtain ⟨hl, hr, hleft, hright⟩ := hread
    unfold Term.attach
    split_ifs with hlt
    · exact ⟨hl, lt_level_attach hr hlt x, hleft, Term.Ordered.attach hx hoperand op hright⟩
    · exact ⟨Nat.le_of_not_lt hlt, hoperand ▸ level_lt_seven op, ⟨hl, hr, hleft, hright⟩, hx⟩
  | .word _, hread | .quoted _, hread | .opposite _, hread | .cast _, hread | .group _, hread | .element _ _, hread
  | .call _ _, hread | .array _, hread =>
    ⟨Nat.le_of_lt (level_lt_seven op), hoperand ▸ level_lt_seven op, hread, hx⟩

mutual

theorem ordered_of_operand : ∀ (n : Nat) {pieces rest : List Lexeme} {x : Term},
    operand n pieces = some (x, rest) → x.level = 7 ∧ x.Ordered
  | 0, _, _, _, h => by
    rw [operand] at h
    cases h
  | n + 1, pieces, rest, x, h => by
    unfold operand at h
    split at h <;> try cases ‹n + 1 = Nat.succ _›
    · cases h
    -- A call and an element, which a bracket behind a word tells.
    · obtain ⟨y, hitems, heq⟩ := Option.map_eq_some_iff.mp h
      cases heq
      exact ⟨rfl, ordered_of_items n hitems⟩
    · split at h
      · rename_i hindex
        cases h
        have hordered := ordered_of_term n hindex
        exact ⟨rfl, hordered⟩
      · cases h
    -- Any other word, and a quotation.
    · cases h
      exact ⟨rfl, trivial⟩
    · cases h
      exact ⟨rfl, trivial⟩
    -- A sign and a cast stand before an operand.
    · obtain ⟨y, hoperand, heq⟩ := Option.map_eq_some_iff.mp h
      cases heq
      exact ⟨rfl, (ordered_of_operand n hoperand).2⟩
    · obtain ⟨y, hoperand, heq⟩ := Option.map_eq_some_iff.mp h
      cases heq
      exact ⟨rfl, (ordered_of_operand n hoperand).2⟩
    -- A group and an array.
    · split at h
      · rename_i hinner
        cases h
        have hordered := ordered_of_term n hinner
        exact ⟨rfl, hordered⟩
      · cases h
    · obtain ⟨y, hitems, heq⟩ := Option.map_eq_some_iff.mp h
      cases heq
      exact ⟨rfl, ordered_of_items n hitems⟩
    · cases h

theorem ordered_of_term : ∀ (n : Nat) {pieces rest : List Lexeme} {x : Term},
    term n pieces = some (x, rest) → x.Ordered
  | 0, _, _, _, h => by
    rw [term] at h
    cases h
  | n + 1, pieces, rest, x, h => by
    rw [term] at h
    obtain ⟨y, hoperand, hchain⟩ := Option.bind_eq_some_iff.mp h
    exact ordered_of_chain n (ordered_of_operand n hoperand).2 hchain

/-- What has been read stays ordered, operand by operand. -/
theorem ordered_of_chain : ∀ (n : Nat) {read x : Term} {pieces rest : List Lexeme}, read.Ordered →
    chain n read pieces = some (x, rest) → x.Ordered
  | 0, _, _, _, _, _, h => by
    rw [chain] at h
    cases h
  | n + 1, read, x, pieces, rest, hread, h => by
    unfold chain at h
    split at h <;> try cases ‹n + 1 = Nat.succ _›
    · cases h
    · obtain ⟨op, -, h₁⟩ := Option.bind_eq_some_iff.mp h
      obtain ⟨y, hoperand, hchain⟩ := Option.bind_eq_some_iff.mp h₁
      obtain ⟨hlevel, hordered⟩ := ordered_of_operand n hoperand
      exact ordered_of_chain n (hordered.attach hlevel op hread) hchain
    · cases h
      exact hread

theorem ordered_of_items : ∀ (n : Nat) {close : Char} {pieces rest : List Lexeme} {xs : List Term},
    items n close pieces = some (xs, rest) → Term.AllOrdered xs
  | 0, _, _, _, _, h => by
    rw [items] at h
    cases h
  | n + 1, close, pieces, rest, xs, h => by
    rw [items] at h
    split_ifs at h
    · cases h
      trivial
    · obtain ⟨y, hterm, h₁⟩ := Option.bind_eq_some_iff.mp h
      obtain ⟨z, hmore, heq⟩ := Option.map_eq_some_iff.mp h₁
      cases heq
      exact ⟨ordered_of_term n hterm, ordered_of_more n hmore⟩

theorem ordered_of_more : ∀ (n : Nat) {close : Char} {pieces rest : List Lexeme} {xs : List Term},
    more n close pieces = some (xs, rest) → Term.AllOrdered xs
  | 0, _, _, _, _, h => by
    rw [more] at h
    cases h
  | n + 1, close, pieces, rest, xs, h => by
    rw [more] at h
    split_ifs at h
    · cases h
      trivial
    · obtain ⟨y, hterm, h₁⟩ := Option.bind_eq_some_iff.mp h
      obtain ⟨z, hmore, heq⟩ := Option.map_eq_some_iff.mp h₁
      cases heq
      exact ⟨ordered_of_term n hterm, ordered_of_more n hmore⟩

end

/-- Whatever Java reads in a text is ordered. -/
theorem ordered_of_read {text : String} {x : Term} (h : read text = some x) : x.Ordered := by
  unfold read at h
  split at h
  · rename_i hterm
    cases h
    exact ordered_of_term _ hterm
  · cases h

end BlockLang.Java
