import BlockLang.Text.Invisible

/-!
# Lexical errors

Why a source text cannot be cut into tokens.  Each error carries the offset, in characters, of the character
that cannot stand where it does.
-/

namespace BlockLang

/-- A lexical error. -/
inductive LexicalError where
  /-- No token starts with this character. -/
  | unexpectedCharacter (character : Char) (offset : Nat)
  /-- A literal was not closed where it had to be. -/
  | unterminatedLiteral (offset : Nat)
  /-- A backslash is followed by a character that no escape sequence has. -/
  | invalidEscape (offset : Nat)
  /-- A literal contains a line break. -/
  | lineBreakInLiteral (offset : Nat)
  /-- A character literal has nothing between its quotes. -/
  | emptyCharacter (offset : Nat)
deriving DecidableEq, Repr, Inhabited

namespace LexicalError

/-- The offset of the offending character. -/
def offset : LexicalError → Nat
  | unexpectedCharacter _ o | unterminatedLiteral o | invalidEscape o | lineBreakInLiteral o
  | emptyCharacter o => o

/-! ## §1 Wording -/

/-- The lower-case hexadecimal digits of a number. -/
def hexadecimal (n : Nat) : String :=
  String.ofList (Nat.toDigits 16 n)

/-- A character between single quotes, with an escape sequence for what would not show. -/
def quoted (c : Char) : String :=
  let body :=
    if c = '\'' then "\\'"
    else if c = '\\' then "\\\\"
    else if c = '\n' then "\\n"
    else if c = '\r' then "\\r"
    else if c = '\t' then "\\t"
    else if c = '\x00' then "\\0"
    else if isInvisible c then "\\u\x7b" ++ hexadecimal c.toNat ++ "\x7d"
    else c.toString
  "'" ++ body ++ "'"

/-- What went wrong, without the place. -/
def reason : LexicalError → String
  | unexpectedCharacter c _ => "Unexpected character " ++ quoted c
  | unterminatedLiteral _ => "Unterminated literal"
  | invalidEscape _ => "Invalid escape sequence"
  | lineBreakInLiteral _ => "Line break inside literal"
  | emptyCharacter _ => "Empty character literal"

/-- The text of the error. -/
def message (e : LexicalError) : String :=
  "Error at offset " ++ toString e.offset ++ ": " ++ e.reason ++ "."

end LexicalError

end BlockLang
