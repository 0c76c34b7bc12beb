/-!
# Tokens

A token is a stretch of source text with its kind and the offset, in characters, of its first character.
Keywords are identifiers to the scanner; the grammar tells them apart by their text.
-/

namespace BlockLang

/-- The kind of a token. -/
inductive TokenKind where
  | identifier
  | integer
  | decimal
  | character
  | string
  | operator
deriving DecidableEq, Repr, Inhabited

/-- A token. -/
structure Token where
  kind : TokenKind
  /-- The exact source text, quotes included. -/
  text : String
  /-- The offset of the first character, in characters. -/
  offset : Nat
deriving DecidableEq, Repr, Inhabited

/-- The offset just past the token. -/
def Token.endOffset (t : Token) : Nat :=
  t.offset + t.text.length

/-! ## §1 Keywords -/

/-- The reserved words.  They can name no variable, function, parameter or type. -/
def keywords : List String :=
  ["VAL", "VAR", "LIST", "FUN", "LET", "IF", "DO", "ELSE", "END", "WHILE", "SWITCH", "CASE", "DEFAULT", "RETURN",
    "NIL", "TRUE", "FALSE"]

/-- Whether a word is reserved. -/
def isKeyword (word : String) : Bool :=
  keywords.contains word

/-! ## §2 Classes of characters -/

/-- Characters that separate tokens and belong to none. -/
def isBlank (c : Char) : Bool :=
  c = ' ' || c = '\t' || c = '\r' || c = '\n' || c = '\x08'

/-- Characters that start an identifier: ASCII letters and `@`. -/
def startsName (c : Char) : Bool :=
  c.isAlpha || c = '@'

/-- Characters that continue an identifier: ASCII letters and digits, `_` and `-`. -/
def continuesName (c : Char) : Bool :=
  c.isAlphanum || c = '_' || c = '-'

/-- Characters that are an operator on their own, which is every character that no other token starts with,
apart from `-`, which may also start a number. -/
def isOperatorChar (c : Char) : Bool :=
  !(isBlank c || startsName c || c.isDigit || c = '\'' || c = '"')

/-- The operators that are written with two characters. -/
def pairedOperators : List (Char × Char) :=
  [('=', '='), ('!', '='), ('&', '&'), ('|', '|')]

end BlockLang
