/-!
# Escape sequences

Inside character and string literals a backslash starts one of seven escape sequences.  `Escape.decode` turns the
body of a literal into the text it denotes, `Escape.encode` writes a text so that it can stand in a literal.
-/

namespace BlockLang

namespace Escape

/-- The characters that may follow a backslash. -/
def isEscape (c : Char) : Bool :=
  c = 'b' || c = 'n' || c = 'r' || c = 't' || c = '\'' || c = '"' || c = '\\'

/-- The character that a backslash followed by `c` denotes. -/
def denoted (c : Char) : Char :=
  if c = 'b' then '\x08'
  else if c = 'n' then '\n'
  else if c = 'r' then '\r'
  else if c = 't' then '\t'
  else c

/-- The text that the body of a literal denotes.  A backslash at the very end stands for itself. -/
def decode : List Char → List Char
  | [] => []
  | ['\\'] => ['\\']
  | '\\' :: c :: rest => denoted c :: decode rest
  | c :: rest => c :: decode rest

/-- The text that a quoted literal denotes: its first and its last character are the quotes. -/
def decodeQuoted (literal : String) : String :=
  String.ofList (decode (literal.toList.drop 1).dropLast)

/-- One character as it is written inside a literal. -/
def encodeChar (c : Char) : List Char :=
  if c = '\\' then ['\\', '\\']
  else if c = '"' then ['\\', '"']
  else if c = '\'' then ['\\', '\'']
  else if c = '\n' then ['\\', 'n']
  else if c = '\t' then ['\\', 't']
  else if c = '\r' then ['\\', 'r']
  else if c = '\x08' then ['\\', 'b']
  else [c]

/-- A text as it is written inside a literal. -/
def encode (text : List Char) : List Char :=
  text.flatMap encodeChar

/-! ## §1 Reading what has been written -/

/-- A written character denotes that character. -/
theorem decode_encodeChar_append (c : Char) (rest : List Char) :
    decode (encodeChar c ++ rest) = c :: decode rest := by
  by_cases h1 : c = '\\'
  · subst h1; rfl
  by_cases h2 : c = '"'
  · subst h2; rfl
  by_cases h3 : c = '\''
  · subst h3; rfl
  by_cases h4 : c = '\n'
  · subst h4; rfl
  by_cases h5 : c = '\t'
  · subst h5; rfl
  by_cases h6 : c = '\r'
  · subst h6; rfl
  by_cases h7 : c = '\x08'
  · subst h7; rfl
  simp only [encodeChar, h1, h2, h3, h4, h5, h6, h7, if_false, List.cons_append, List.nil_append]
  rw [decode]
  · intro hc
    exact absurd hc h1
  · intro d more hc
    exact absurd hc h1

/-- A written text denotes that text. -/
theorem decode_encode (text : List Char) : decode (encode text) = text := by
  induction text with
  | nil => rfl
  | cons c rest ih =>
    rw [encode, List.flatMap_cons, decode_encodeChar_append]
    exact congrArg (c :: ·) ih

end Escape

end BlockLang
