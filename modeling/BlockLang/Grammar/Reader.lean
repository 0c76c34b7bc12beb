import BlockLang.Grammar.Error
import BlockLang.Token.Basic

/-!
# Reading tokens

A reader of some kind of phrase consumes tokens from the front of a sequence, hands out node ids in increasing
order, and either yields the phrase or fails.  A failed reader keeps the place at which it failed.
-/

namespace BlockLang

/-- Where reading stands. -/
structure ReaderState where
  /-- The tokens not yet consumed. -/
  rest : List Token
  /-- The offset just past the last token of all. -/
  endOffset : Nat
  /-- The id that the next node gets. -/
  nextId : Nat
deriving Repr, Inhabited

/-- A reader of phrases of type `α`. -/
abbrev Reader (α : Type) := EStateM GrammarError ReaderState α

namespace ReaderState

/-- Before the first of `tokens`. -/
def ofTokens (tokens : List Token) : ReaderState :=
  ⟨tokens, (tokens.getLast?.map Token.endOffset).getD 0, 0⟩

/-- The next token. -/
def current (s : ReaderState) : Option Token :=
  s.rest.head?

/-- The offset of the next token, or of the end. -/
def offset (s : ReaderState) : Nat :=
  (s.current.map Token.offset).getD s.endOffset

/-- Whether the next token has the given text. -/
def peek (s : ReaderState) (text : String) : Bool :=
  s.current.any fun t => t.text = text

/-- Whether the next token has one of the given texts. -/
def peekOneOf (s : ReaderState) (texts : List String) : Bool :=
  s.current.any fun t => texts.contains t.text

/-- The place after the next token. -/
def advance (s : ReaderState) : ReaderState :=
  { s with rest := s.rest.drop 1 }

/-- The error that the next token, or the end, is not what the grammar allows here. -/
def unexpected (s : ReaderState) (expected : Expectation) : GrammarError :=
  match s.current with
  | some t => .unexpectedToken expected t.text t.offset
  | none => .unexpectedEnd expected s.endOffset

end ReaderState

namespace Reader

/-! ## §1 Single steps -/

/-- The offset of the next token, or of the end. -/
def offset : Reader Nat := do
  return (← get).offset

/-- Moves past the next token. -/
def advance : Reader Unit :=
  modify ReaderState.advance

/-- Fails because the next token, or the end, is not what the grammar allows here. -/
def unexpected {α : Type} (expected : Expectation) : Reader α := do
  throw ((← get).unexpected expected)

/-- A node id that no node has yet. -/
def freshId : Reader Nat :=
  modifyGet fun s => (s.nextId, { s with nextId := s.nextId + 1 })

/-- Whether the next token has the given text. -/
def peek (text : String) : Reader Bool := do
  return (← get).peek text

/-- Consumes the next token if it has the given text; tells whether it had. -/
def eat (text : String) : Reader Bool := do
  if (← get).peek text then
    advance
    return true
  else
    return false

/-- Consumes the next token, which must have the given text. -/
def expect (text : String) : Reader Unit := do
  if (← get).peek text then advance else unexpected (.oneOf [text])

/-- Reads a name that is not reserved. -/
def identifier : Reader String := do
  match (← get).current with
  | some t =>
    if t.kind = .identifier ∧ !isKeyword t.text then
      advance
      return t.text
    else
      unexpected .identifier
  | none => unexpected .identifier

/-- Reads a colon and the name of a type, if a colon is next. -/
def typeName? : Reader (Option String) := do
  if ← eat ":" then
    return some (← identifier)
  else
    return none

/-! ## §2 Sequences -/

/-- Reads further items after the first ones of a sequence, each after a comma, until `closing`; at most `n`
items. -/
def moreItems {α : Type} (item : Reader α) (closing : String) : Nat → Reader (List α)
  | 0 => unexpected (.oneOf [",", closing])
  | n + 1 => do
    if ← eat "," then
      let x ← item
      return x :: (← moreItems item closing n)
    else if ← eat closing then
      return []
    else
      unexpected (.oneOf [",", closing])

/-- Reads a possibly empty sequence of items separated by commas and closed by `closing`; `n` bounds the items
after the first. -/
def commaSeparated {α : Type} (item : Reader α) (closing : String) (n : Nat) : Reader (List α) := do
  if ← eat closing then
    return []
  else
    let x ← item
    return x :: (← moreItems item closing n)

/-- Reads items as long as `more` holds of the place, at most `n` of them. -/
def many {α : Type} (more : ReaderState → Bool) (item : Reader α) : Nat → Reader (List α)
  | 0 => return []
  | n + 1 => do
    if more (← get) then
      let x ← item
      return x :: (← many more item n)
    else
      return []

end Reader

end BlockLang
