import BlockLang.Text.Cursor
import BlockLang.Token.Basic
import BlockLang.Token.Error

/-!
# Scanning

Cuts a source text into tokens from left to right, each as long as its first character allows.  Whatever class
the first character of a token has decides which forms the token can take, so scanning one token is a function
of that character and of the text after it; its answer is how many characters of that text still belong to the
token.
-/

namespace BlockLang

namespace Scan

/-! ## §1 Numbers -/

/-- How many characters of `rest` belong to the whole part of a number that starts with `c`; none if no number
starts here.  A minus sign starts a number only before a digit. -/
def wholeLength? (c : Char) (rest : List Char) : Option Nat :=
  if c = '0' then some 0
  else if c.isDigit then some (rest.takeWhile Char.isDigit).length
  else if c = '-' then
    match rest with
    | [] => none
    | d :: more =>
      if d = '0' then some 1
      else if d.isDigit then some (1 + (more.takeWhile Char.isDigit).length)
      else none
  else none

/-- How many characters the point and the digits after it take; none unless a digit follows the point. -/
def fractionLength? : List Char → Option Nat
  | '.' :: d :: more => if d.isDigit then some (2 + (more.takeWhile Char.isDigit).length) else none
  | _ => none

/-- The longest number that starts with `c`.  There is no integer `-0`: its minus sign is an operator. -/
def number? (c : Char) (rest : List Char) : Option (TokenKind × Nat) :=
  match wholeLength? c rest with
  | none => none
  | some w =>
    match fractionLength? (rest.drop w) with
    | some f => some (.decimal, w + f)
    | none => if c = '-' ∧ rest.head? = some '0' then none else some (.integer, w)

/-! ## §2 Character and string literals -/

/-- Fails at the cursor, whose text begins at the character offset `base`. -/
def failAt {α : Type} (base : Nat) (cause : Nat → LexicalError) (c : Cursor) : Except LexicalError α :=
  .error (cause (base + c.behind.length))

/-- Consumes one character of a literal, or one escape sequence. -/
def element (base : Nat) (c : Cursor) : Except LexicalError Cursor :=
  match c.eat [CharClass.backslash] with
  | (true, inside) =>
    match inside.eat [CharClass.escape] with
    | (true, next) => .ok next
    | (false, _) =>
      if inside.isEmpty then failAt base .unterminatedLiteral inside else failAt base .invalidEscape inside
  | (false, _) =>
    if c.peek [CharClass.lineBreak] then failAt base .lineBreakInLiteral c
    else
      match c.eat [CharClass.any] with
      | (true, next) => .ok next
      | (false, _) => failAt base .unterminatedLiteral c

/-- Consumes the body of a character literal and its closing quote. -/
def characterBody (base : Nat) (c : Cursor) : Except LexicalError Cursor :=
  if c.peek [CharClass.singleQuote] then failAt base .emptyCharacter c
  else
    match element base c with
    | .error e => .error e
    | .ok inside =>
      match inside.eat [CharClass.singleQuote] with
      | (true, next) => .ok next
      | (false, _) =>
        if inside.peek [CharClass.lineBreak] then failAt base .lineBreakInLiteral inside
        else failAt base .unterminatedLiteral inside

/-- Consumes the body of a string literal and its closing quote, in at most `n` further elements. -/
def stringBody (base : Nat) : Nat → Cursor → Except LexicalError Cursor
  | n, c =>
    match c.eat [CharClass.doubleQuote] with
    | (true, next) => .ok next
    | (false, _) =>
      match n, element base c with
      | _, .error e => .error e
      | 0, .ok inside => failAt base .unterminatedLiteral inside
      | m + 1, .ok inside => stringBody base m inside

/-! ## §3 One token -/

/-- How many characters follow the first one of an operator. -/
def operatorLength (c : Char) : List Char → Nat
  | [] => 0
  | d :: _ => if pairedOperators.contains (c, d) then 1 else 0

/-- The kind of the token that starts with `c` at `offset`, and how many characters of `rest` belong to it. -/
def token (offset : Nat) (c : Char) (rest : List Char) : Except LexicalError (TokenKind × Nat) :=
  if startsName c then .ok (.identifier, (rest.takeWhile continuesName).length)
  else if c = '\'' then
    (characterBody (offset + 1) (Cursor.ofText rest 0)).map fun last => (.character, last.behind.length)
  else if c = '"' then
    (stringBody (offset + 1) rest.length (Cursor.ofText rest 0)).map fun last => (.string, last.behind.length)
  else
    match number? c rest with
    | some found => .ok found
    | none =>
      if isOperatorChar c then .ok (.operator, operatorLength c rest)
      else .error (.unexpectedCharacter c offset)

/-! ## §4 The whole text -/

/-- The tokens of a text that begins at the character offset `offset` and whose first `inside` characters belong
to a token already read. -/
def tokens : (inside offset : Nat) → List Char → Except LexicalError (List Token)
  | _, _, [] => .ok []
  | inside + 1, offset, _ :: rest => tokens inside (offset + 1) rest
  | 0, offset, c :: rest =>
    if isBlank c then tokens 0 (offset + 1) rest
    else
      match token offset c rest with
      | .error e => .error e
      | .ok (kind, n) =>
        (tokens n (offset + 1) rest).map fun later => ⟨kind, String.ofList (c :: rest.take n), offset⟩ :: later

end Scan

/-- The tokens of a source text, or the first reason why it has none. -/
def tokenize (source : String) : Except LexicalError (List Token) :=
  Scan.tokens 0 0 source.toList

end BlockLang
