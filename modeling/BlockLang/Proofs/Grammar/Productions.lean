import BlockLang.Token.Basic

/-!
# Productions

The concrete grammar as data, one production for each rule, and the token sequences that derive from it.  Terminals are
matched by their text, literals by the kind of their token, and an identifier is an identifier token whose text is not
reserved.

    source         ::= global* function+
    global         ::= (list | mutable | immutable) ";"
    list           ::= "LIST" identifier ":" identifier "=" "[" expression ("," expression)* "]"
    mutable        ::= "VAR" identifier (":" identifier)? ("=" expression)?
    immutable      ::= "VAL" identifier (":" identifier)? "=" expression
    function       ::= "FUN" identifier "(" (identifier ":" identifier ("," identifier ":" identifier)*)? ")"
                       (":" identifier)? "DO" block "END"
    block          ::= statement+
    statement      ::= "LET" identifier (":" identifier)? ("=" expression)? ";"
                     | "SWITCH" expression ("CASE" expression ":" block)* "DEFAULT" block "END"
                     | "IF" expression "DO" block ("ELSE" block)? "END"
                     | "WHILE" expression "DO" block "END"
                     | "RETURN" expression ";"
                     | expression ("=" expression)? ";"
    expression     ::= logical
    logical        ::= comparison (("&&" | "||") comparison)*
    comparison     ::= additive (("==" | "!=" | "<" | ">") additive)*
    additive       ::= multiplicative (("+" | "-") multiplicative)*
    multiplicative ::= primary (("*" | "/" | "^") primary)*
    primary        ::= "NIL" | "TRUE" | "FALSE" | integer | decimal | character | string
                     | "(" expression ")"
                     | identifier ("(" (expression ("," expression)*)? ")")?
                     | identifier "[" expression "]"
-/

namespace BlockLang

namespace Ebnf

/-! ## §1 Forms -/

/-- The rules of the grammar. -/
inductive Rule where
  | source
  | global
  | list
  | mutable
  | immutable
  | function
  | block
  | statement
  | expression
  | logical
  | comparison
  | additive
  | multiplicative
  | primary
deriving DecidableEq, Repr

/-- What can stand on the right of a production. -/
inductive Form where
  /-- A token with this text. -/
  | text (text : String)
  /-- A name that is not reserved. -/
  | identifier
  /-- A token of this kind. -/
  | kind (kind : TokenKind)
  | rule (rule : Rule)
  /-- Nothing. -/
  | empty
  /-- One form after the other. -/
  | seq (first second : Form)
  /-- One of two forms. -/
  | alt (first second : Form)
  /-- The form any number of times. -/
  | many (form : Form)
deriving Repr

namespace Form

/-- Forms one after the other. -/
def row : List Form → Form
  | [] => empty
  | [form] => form
  | form :: rest => seq form (row rest)

/-- One of several forms. -/
def oneOf (form : Form) : List Form → Form
  | [] => form
  | next :: rest => alt form (oneOf next rest)

/-- The form or nothing. -/
def optional (form : Form) : Form := alt form empty

/-- The form at least once. -/
def some (form : Form) : Form := seq form (many form)

/-- The form any number of times, with commas in between. -/
def separated (form : Form) : Form := seq form (many (seq (text ",") form))

end Form

/-! ## §2 The productions -/

open Form

/-- A type, if one is written. -/
def typing : Form := optional (row [text ":", identifier])

/-- An initial value, if one is written. -/
def initial : Form := optional (row [text "=", rule .expression])

/-- Operands with operators between them. -/
def operands (operand : Rule) (first : String) (others : List String) : Form :=
  seq (rule operand) (many (seq (oneOf (text first) (others.map text)) (rule operand)))

/-- The right side of the production of a rule. -/
def production : Rule → Form
  | .source => row [many (rule .global), some (rule .function)]
  | .global => row [oneOf (rule .list) [rule .mutable, rule .immutable], text ";"]
  | .list =>
    row [text "LIST", identifier, text ":", identifier, text "=", text "[", separated (rule .expression), text "]"]
  | .mutable => row [text "VAR", identifier, typing, initial]
  | .immutable => row [text "VAL", identifier, typing, text "=", rule .expression]
  | .function =>
    row [text "FUN", identifier, text "(", optional (separated (row [identifier, text ":", identifier])), text ")",
      typing, text "DO", rule .block, text "END"]
  | .block => some (rule .statement)
  | .statement =>
    oneOf (row [text "LET", identifier, typing, initial, text ";"])
      [row [text "SWITCH", rule .expression, many (row [text "CASE", rule .expression, text ":", rule .block]),
        text "DEFAULT", rule .block, text "END"],
      row [text "IF", rule .expression, text "DO", rule .block, optional (row [text "ELSE", rule .block]), text "END"],
      row [text "WHILE", rule .expression, text "DO", rule .block, text "END"],
      row [text "RETURN", rule .expression, text ";"],
      row [rule .expression, initial, text ";"]]
  | .expression => rule .logical
  | .logical => operands .comparison "&&" ["||"]
  | .comparison => operands .additive "==" ["!=", "<", ">"]
  | .additive => operands .multiplicative "+" ["-"]
  | .multiplicative => operands .primary "*" ["/", "^"]
  | .primary =>
    oneOf (text "NIL") [text "TRUE", text "FALSE", kind .integer, kind .decimal, kind .character, kind .string,
      row [text "(", rule .expression, text ")"],
      row [identifier, optional (row [text "(", optional (separated (rule .expression)), text ")"])],
      row [identifier, text "[", rule .expression, text "]"]]

/-! ## §3 Derivations -/

/-- The token sequences that derive from a form. -/
inductive Derives : Form → List Token → Prop where
  | text {x : String} {t : Token} (h : t.text = x) : Derives (.text x) [t]
  | identifier {t : Token} (hkind : t.kind = .identifier) (hword : isKeyword t.text = false) :
    Derives .identifier [t]
  | kind {k : TokenKind} {t : Token} (h : t.kind = k) : Derives (.kind k) [t]
  | rule {r : Rule} {ts : List Token} (h : Derives (production r) ts) : Derives (.rule r) ts
  | empty : Derives .empty []
  | seq {a b : Form} {ts us : List Token} (ha : Derives a ts) (hb : Derives b us) : Derives (.seq a b) (ts ++ us)
  | first {a b : Form} {ts : List Token} (h : Derives a ts) : Derives (.alt a b) ts
  | second {a b : Form} {ts : List Token} (h : Derives b ts) : Derives (.alt a b) ts
  | stop {a : Form} : Derives (.many a) []
  | more {a : Form} {ts us : List Token} (ha : Derives a ts) (hmany : Derives (.many a) us) :
    Derives (.many a) (ts ++ us)

end Ebnf

end BlockLang
