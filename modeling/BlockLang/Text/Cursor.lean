import BlockLang.Text.Escape

/-!
# Character cursors

A cursor stands inside a text: what has been consumed lies behind it, the rest before it.  `peek` tests the next
characters against classes of characters, one class for each; `eat` also consumes them if they match.
-/

namespace BlockLang

-- Sums begin with the numeral zero here, also where the algebraic hierarchy is in scope.
attribute [local instance (high)] Zero.ofOfNat0

/-- A class of characters. -/
abbrev CharClass := Char → Bool

/-- A position in a text whose first character stands at byte `start` of the whole source. -/
structure Cursor where
  /-- The byte offset of the text in the whole source. -/
  start : Nat
  /-- The consumed characters, the latest first. -/
  behind : List Char
  /-- The characters not yet consumed. -/
  rest : List Char
deriving DecidableEq, Repr, Inhabited

namespace Cursor

/-! ## §1 Observations -/

/-- A cursor before the first character of `text`. -/
def ofText (text : List Char) (start : Nat) : Cursor :=
  ⟨start, [], text⟩

/-- The consumed characters in the order of the text. -/
def consumed (c : Cursor) : List Char :=
  c.behind.reverse

/-- The length of a text in bytes. -/
def byteLength (text : List Char) : Nat :=
  (text.map Char.utf8Size).sum

/-- How many bytes have been consumed. -/
def consumedBytes (c : Cursor) : Nat :=
  byteLength c.behind

/-- The byte offset of the next character in the whole source. -/
def offset (c : Cursor) : Nat :=
  c.start + c.consumedBytes

/-- Whether every character has been consumed. -/
def isEmpty (c : Cursor) : Bool :=
  c.rest.isEmpty

/-! ## §2 Tests and moves -/

/-- Whether the text begins with one character of each class, in order. -/
def matchesAll : List CharClass → List Char → Bool
  | [], _ => true
  | _ :: _, [] => false
  | p :: classes, x :: rest => p x && matchesAll classes rest

/-- Whether the next characters are of the given classes, in order. -/
def peek (c : Cursor) (classes : List CharClass) : Bool :=
  matchesAll classes c.rest

/-- The cursor `n` characters further on, or at the end. -/
def advance (c : Cursor) (n : Nat) : Cursor :=
  { c with behind := (c.rest.take n).reverse ++ c.behind, rest := c.rest.drop n }

/-- Consumes the next characters if they are of the given classes, in order; tells whether they were. -/
def eat (c : Cursor) (classes : List CharClass) : Bool × Cursor :=
  if c.peek classes then (true, c.advance classes.length) else (false, c)

/-! ## §3 What moves keep -/

/-- Moving on appends to what has been consumed. -/
theorem consumed_advance (c : Cursor) (n : Nat) :
    (c.advance n).consumed = c.consumed ++ c.rest.take n := by
  simp [advance, consumed]

/-- The consumed characters followed by the rest are the text, wherever the cursor stands. -/
theorem consumed_append_rest_advance (c : Cursor) (n : Nat) :
    (c.advance n).consumed ++ (c.advance n).rest = c.consumed ++ c.rest := by
  simp [advance, consumed]

/-- A failed `eat` moves nowhere. -/
theorem eat_of_not_peek {c : Cursor} {classes : List CharClass} (h : c.peek classes = false) :
    c.eat classes = (false, c) := by
  simp [eat, h]

/-- A successful `eat` moves past one character of each class. -/
theorem eat_of_peek {c : Cursor} {classes : List CharClass} (h : c.peek classes = true) :
    c.eat classes = (true, c.advance classes.length) := by
  simp [eat, h]

end Cursor

/-! ## §4 Classes of characters -/

namespace CharClass

/-- Every character. -/
def any : CharClass := fun _ => true

/-- Line feed and carriage return. -/
def lineBreak : CharClass := fun c => c = '\n' || c = '\r'

/-- The characters that may follow a backslash. -/
def escape : CharClass := Escape.isEscape

/-- The backslash. -/
def backslash : CharClass := fun c => c = '\\'

/-- The single quote. -/
def singleQuote : CharClass := fun c => c = '\''

/-- The double quote. -/
def doubleQuote : CharClass := fun c => c = '"'

end CharClass

end BlockLang
