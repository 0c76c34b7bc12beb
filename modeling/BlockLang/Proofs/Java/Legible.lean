import BlockLang.Proofs.Java.Reading

/-!
# Reading what is written

A term of Java is written without parentheses of its own, so the text of a term is read as that term only if its
operators bind as the tree says.  Such terms are legible, provided also that their words are words and their literals
are closed where they end; for these the reader gives the term back.

## Main definitions

- `Term.chars`: the text of a term.
- `Term.Legible`: the operands of operators bind more tightly than the operators, the left ones possibly as tightly.

## Main statement

- `read_of_legible`: reading the text of a legible term gives the term.
-/

namespace BlockLang.Java

/-! ## §1 Written terms -/

namespace Term

mutual

/-- The text of a term. -/
def chars : Term → List Char
  | .word text | .quoted text => text
  | .opposite x => '-' :: x.chars
  | .cast x => '(' :: intKeyword ++ ')' :: ' ' :: x.chars
  | .group inner => '(' :: inner.chars ++ [')']
  | .binary op left right => left.chars ++ ' ' :: op.symbol.toList ++ ' ' :: right.chars
  | .element name index => name ++ '[' :: index.chars ++ [']']
  | .call method arguments => method ++ '(' :: itemsChars arguments ++ [')']
  | .array elements => '\x7b' :: itemsChars elements ++ ['\x7d']

/-- The text of terms with commas between them. -/
def itemsChars : List Term → List Char
  | [] => []
  | first :: rest => first.chars ++ moreChars rest

/-- The text of the terms behind the first one. -/
def moreChars : List Term → List Char
  | [] => []
  | next :: rest => ',' :: ' ' :: next.chars ++ moreChars rest

end

mutual

/-- The pieces of a term. -/
def pieces : Term → List Lexeme
  | .word text => [.word text]
  | .quoted text => [.quoted text]
  | .opposite x => .operator ['-'] :: x.pieces
  | .cast x => .bracket '(' :: .word intKeyword :: .bracket ')' :: x.pieces
  | .group inner => .bracket '(' :: inner.pieces ++ [.bracket ')']
  | .binary op left right => left.pieces ++ .operator op.symbol.toList :: right.pieces
  | .element name index => .word name :: .bracket '[' :: index.pieces ++ [.bracket ']']
  | .call method arguments => .word method :: .bracket '(' :: itemsPieces arguments ++ [.bracket ')']
  | .array elements => .bracket '\x7b' :: itemsPieces elements ++ [.bracket '\x7d']

/-- The pieces of terms with commas between them. -/
def itemsPieces : List Term → List Lexeme
  | [] => []
  | first :: rest => first.pieces ++ morePieces rest

/-- The pieces of the terms behind the first one. -/
def morePieces : List Term → List Lexeme
  | [] => []
  | next :: rest => .bracket ',' :: next.pieces ++ morePieces rest

end

end Term

/-- Characters that make one word. -/
def IsWord (text : List Char) : Prop :=
  text ≠ [] ∧ ∀ c ∈ text, isWordChar c

instance (text : List Char) : Decidable (IsWord text) :=
  decidable_of_iff (text ≠ [] ∧ text.all isWordChar) (by rw [IsWord, List.all_eq_true])

/-- Elements between two quotes. -/
def IsQuoted (text : List Char) : Prop :=
  ∃ (quote : Char) (elements : List (List Char)), (quote = '\'' ∨ quote = '"') ∧
    text = quote :: (elements.flatten ++ [quote]) ∧ ∀ e ∈ elements, IsElement quote e

namespace Term

mutual

/-- A term is read as it is written: its operators bind as the tree says, and its words and literals are such. -/
def Legible : Term → Prop
  | .word text => IsWord text
  | .quoted text => IsQuoted text
  | .opposite x => ∃ text, x = .word text ∧ IsWord text
  | .cast x => x.level = 7 ∧ x.Legible
  | .group inner => inner ≠ .word intKeyword ∧ inner.Legible
  | .binary op left right =>
    op ≠ .pow ∧ Java.level op ≤ left.level ∧ Java.level op < right.level ∧ left.Legible ∧ right.Legible
  | .element name index => IsWord name ∧ index.Legible
  | .call method arguments => IsWord method ∧ AllLegible arguments
  | .array elements => AllLegible elements

/-- Each of several terms is read as it is written. -/
def AllLegible : List Term → Prop
  | [] => True
  | first :: rest => first.Legible ∧ AllLegible rest

end

end Term

/-! ## §2 Cutting a text -/

/-- What stands behind a word does not go on with it. -/
def Boundary (rest : List Char) : Prop :=
  ∀ c ∈ rest.head?, isWordChar c = false

theorem boundary_cons {c : Char} {rest : List Char} (h : isWordChar c = false) : Boundary (c :: rest) := by
  simpa [Boundary] using h

theorem not_mem_signs {c : Char} (h : isWordChar c = true) : c ∉ signs := by
  intro hc
  have hall : signs.all (fun d => !isWordChar d) = true := by decide
  simpa [h] using List.all_eq_true.mp hall c hc

theorem lexemesFrom_word {text rest : List Char} (h : Boundary rest) :
    lexemesFrom (.word text) rest = .word text :: lexemes rest := by
  cases rest with
  | nil => rfl
  | cons c rest =>
    have hc : isWordChar c = false := h c rfl
    simp [lexemes, lexemesFrom, Pending.step, hc]

theorem lexemesFrom_word_append {more : List Char} (h : ∀ c ∈ more, isWordChar c) (text rest : List Char) :
    lexemesFrom (.word text) (more ++ rest) = lexemesFrom (.word (text ++ more)) rest := by
  induction more generalizing text with
  | nil => simp
  | cons c more ih =>
    obtain ⟨hc, hmore⟩ := List.forall_mem_cons.mp h
    simp [lexemesFrom, Pending.step, hc, ih hmore]

/-- A word character begins a word. -/
theorem begin_of_isWordChar {c : Char} (h : isWordChar c = true) : begin c = ([], .word [c]) := by
  have hc : c ≠ ' ' := by
    rintro rfl
    simp [isWordChar] at h
  simp [begin, hc, h]

/-- A word ends at a boundary. -/
theorem lexemes_word {text rest : List Char} (h : IsWord text) (hrest : Boundary rest) :
    lexemes (text ++ rest) = .word text :: lexemes rest := by
  obtain ⟨hne, hall⟩ := h
  cases text with
  | nil => exact absurd rfl hne
  | cons c text =>
    obtain ⟨hc, htext⟩ := List.forall_mem_cons.mp hall
    simp only [lexemes, List.cons_append, lexemesFrom, Pending.step, begin_of_isWordChar hc, List.nil_append]
    rw [lexemesFrom_word_append htext, List.singleton_append, lexemesFrom_word hrest, lexemes]

/-- A minus sign before a word is a piece of its own. -/
theorem lexemes_minus {text rest : List Char} (h : IsWord text) :
    lexemes ('-' :: text ++ rest) = .operator ['-'] :: lexemes (text ++ rest) := by
  obtain ⟨hne, hall⟩ := h
  cases text with
  | nil => exact absurd rfl hne
  | cons c text =>
    have hc := not_mem_signs (hall c List.mem_cons_self)
    have hminus : begin '-' = ([], .operator ['-']) := by decide
    simp [lexemes, lexemesFrom, Pending.step, hminus, hc]

/-- Blanks stand around operators. -/
theorem lexemes_operator (op : Operator) (rest : List Char) :
    lexemes (' ' :: op.symbol.toList ++ ' ' :: rest) = if op = .pow then .bracket '^' :: lexemes rest else
      .operator op.symbol.toList :: lexemes rest := by
  cases op <;> rfl

/-- An element of a literal goes on with it. -/
theorem lexemesFrom_element {quote : Char} {e : List Char} (h : IsElement quote e) (text rest : List Char) :
    lexemesFrom (.quoted quote text) (e ++ rest) = lexemesFrom (.quoted quote (text ++ e)) rest := by
  rcases h with ⟨c, rfl, hbackslash, hquote, -⟩ | ⟨c, rfl, -⟩
  · simp [lexemesFrom, Pending.step, hbackslash, hquote]
  · simp [lexemesFrom, Pending.step]

theorem lexemesFrom_elements {quote : Char} {elements : List (List Char)} (h : ∀ e ∈ elements, IsElement quote e)
    (text rest : List Char) :
    lexemesFrom (.quoted quote text) (elements.flatten ++ rest) =
      lexemesFrom (.quoted quote (text ++ elements.flatten)) rest := by
  induction elements generalizing text with
  | nil => simp
  | cons e elements ih =>
    obtain ⟨he, helements⟩ := List.forall_mem_cons.mp h
    rw [List.flatten_cons, List.append_assoc, lexemesFrom_element he, ih helements, List.append_assoc]

/-- A literal ends at its second quote. -/
theorem lexemes_quoted {text : List Char} (h : IsQuoted text) (rest : List Char) :
    lexemes (text ++ rest) = .quoted text :: lexemes rest := by
  obtain ⟨quote, elements, hquote, rfl, helements⟩ := h
  have hbegin : begin quote = ([], .quoted quote [quote]) := by
    rcases hquote with rfl | rfl <;> decide
  have hbackslash : quote ≠ '\\' := by
    rcases hquote with rfl | rfl <;> decide
  simp only [lexemes, List.cons_append, lexemesFrom, Pending.step, hbegin, List.nil_append, List.append_assoc]
  rw [lexemesFrom_elements helements]
  simp [lexemesFrom, Pending.step, hbackslash]

/-- A bracket is a piece of its own. -/
theorem lexemes_bracket {c : Char} (h : begin c = ([.bracket c], .nothing)) (rest : List Char) :
    lexemes (c :: rest) = .bracket c :: lexemes rest := by
  simp [lexemes, lexemesFrom, Pending.step, h]

theorem boundary_moreChars {rest : List Char} (Ts : List Term) (h : Boundary rest) :
    Boundary (Term.moreChars Ts ++ rest) := by
  cases Ts with
  | nil => exact h
  | cons next others => exact boundary_cons (by decide)

theorem lexemes_blank (rest : List Char) : lexemes (' ' :: rest) = lexemes rest := rfl

namespace Term

mutual

/-- The text of a legible term is cut into the pieces of the term. -/
theorem lexemes_chars : ∀ (T : Term), T.Legible → ∀ rest, Boundary rest →
    lexemes (T.chars ++ rest) = T.pieces ++ lexemes rest
  | .word text, h, rest, hrest => lexemes_word h hrest
  | .quoted text, h, rest, _ => lexemes_quoted h rest
  | .opposite x, h, rest, hrest => by
    obtain ⟨text, rfl, htext⟩ := h
    simp only [chars, pieces]
    rw [lexemes_minus htext, lexemes_word htext hrest]
    rfl
  | .cast x, h, rest, hrest => by
    simp only [chars, pieces, intKeyword, List.cons_append, List.nil_append]
    exact congrArg (.bracket '(' :: .word ['i', 'n', 't'] :: .bracket ')' :: ·) (lexemes_chars x h.2 rest hrest)
  | .group inner, h, rest, _ => by
    simp only [chars, pieces, List.cons_append, List.append_assoc, List.nil_append]
    rw [lexemes_bracket (by decide), lexemes_chars inner h.2 _ (boundary_cons (by decide)),
      lexemes_bracket (by decide)]
  | .binary op left right, h, rest, hrest => by
    -- A power is printed as a call of a method, so it is no legible operator.
    obtain ⟨hpow, -, -, hleft, hright⟩ := h
    simp only [chars, pieces, List.cons_append, List.append_assoc]
    rw [lexemes_chars left hleft _ (boundary_cons (by decide)), ← List.cons_append, lexemes_operator, if_neg hpow,
      lexemes_chars right hright rest hrest]
  | .element name index, h, rest, _ => by
    simp only [chars, pieces, List.cons_append, List.append_assoc, List.nil_append]
    rw [lexemes_word h.1 (boundary_cons (by decide)), lexemes_bracket (by decide),
      lexemes_chars index h.2 _ (boundary_cons (by decide)), lexemes_bracket (by decide)]
  | .call method arguments, h, rest, _ => by
    simp only [chars, pieces, List.cons_append, List.append_assoc, List.nil_append]
    rw [lexemes_word h.1 (boundary_cons (by decide)), lexemes_bracket (by decide),
      lexemes_itemsChars arguments h.2 _ (boundary_cons (by decide)), lexemes_bracket (by decide)]
  | .array elements, h, rest, _ => by
    simp only [chars, pieces, List.cons_append, List.append_assoc, List.nil_append]
    rw [lexemes_bracket (by decide), lexemes_itemsChars elements h _ (boundary_cons (by decide)),
      lexemes_bracket (by decide)]

theorem lexemes_itemsChars : ∀ (Ts : List Term), AllLegible Ts → ∀ rest, Boundary rest →
    lexemes (itemsChars Ts ++ rest) = itemsPieces Ts ++ lexemes rest
  | [], _, _, _ => rfl
  | first :: others, h, rest, hrest => by
    simp only [itemsChars, itemsPieces, List.append_assoc]
    rw [lexemes_chars first h.1 _ (boundary_moreChars others hrest), lexemes_moreChars others h.2 rest hrest]

theorem lexemes_moreChars : ∀ (Ts : List Term), AllLegible Ts → ∀ rest, Boundary rest →
    lexemes (moreChars Ts ++ rest) = morePieces Ts ++ lexemes rest
  | [], _, _, _ => rfl
  | next :: others, h, rest, hrest => by
    simp only [moreChars, morePieces, List.cons_append, List.append_assoc]
    rw [lexemes_bracket (by decide), lexemes_blank,
      lexemes_chars next h.1 _ (boundary_moreChars others hrest), lexemes_moreChars others h.2 rest hrest]

end

/-! ## §3 Operands and links -/

/-- The leftmost operand that is not in brackets. -/
def first : Term → Term
  | .binary _ left _ => left.first
  | T => T

/-- The operators that are not in brackets, each with the operand behind it. -/
def links : Term → List (Operator × Term)
  | .binary op left right => left.links ++ (op, right.first) :: right.links
  | _ => []

/-- What has been read, with more operators and operands. -/
def attachAll (T : Term) (links : List (Operator × Term)) : Term :=
  links.foldl (fun read x => read.attach x.1 x.2) T

/-- The pieces of operators and operands. -/
def linkPieces (links : List (Operator × Term)) : List Lexeme :=
  links.flatMap fun x => .operator x.1.symbol.toList :: x.2.pieces

theorem pieces_eq : ∀ T : Term, T.pieces = T.first.pieces ++ linkPieces T.links
  | .binary op left right => by
    rw [pieces, pieces_eq left, pieces_eq right]
    simp [first, links, linkPieces]
  | .word _ | .quoted _ | .opposite _ | .cast _ | .group _ | .element _ _ | .call _ _ | .array _ => by
    simp [first, links, linkPieces]

/-- An operator is hung in at the top if nothing above it binds less tightly. -/
theorem attach_of_le {T : Term} {op : Operator} (h : Java.level op ≤ T.level) (x : Term) :
    T.attach op x = .binary op T x := by
  cases T with
  | binary outer left right =>
    have hnot : ¬ Java.level outer < Java.level op := Nat.not_lt.mpr h
    rw [attach, if_neg hnot]
  | word | quoted | opposite | cast | group | element | call | array => rfl

/-- Operators that bind more tightly go into the right operand. -/
theorem attachAll_binary {op : Operator} {more : List (Operator × Term)}
    (h : ∀ x ∈ more, Java.level op < Java.level x.1) (left right : Term) :
    (Term.binary op left right).attachAll more = .binary op left (right.attachAll more) := by
  induction more generalizing right with
  | nil => rfl
  | cons x more ih =>
    obtain ⟨hx, hmore⟩ := List.forall_mem_cons.mp h
    have hattach : (Term.binary op left right).attach x.1 x.2 = .binary op left (right.attach x.1 x.2) := by
      rw [attach, if_pos hx]
    simp only [attachAll, List.foldl_cons, hattach]
    exact ih hmore _

/-- All operators of a legible term bind at least as tightly as the outermost one. -/
theorem level_le_of_mem_links : ∀ {T : Term}, T.Legible → ∀ x ∈ T.links, T.level ≤ Java.level x.1
  | .binary op left right, h => by
    obtain ⟨-, hleft, hright, hl, hr⟩ := h
    refine List.forall_mem_append.mpr ⟨fun x hx => ?_, List.forall_mem_cons.mpr ⟨Nat.le_refl _, fun x hx => ?_⟩⟩
    · exact Nat.le_trans hleft (level_le_of_mem_links hl x hx)
    · exact Nat.le_trans (Nat.le_of_lt hright) (level_le_of_mem_links hr x hx)
  | .word _, _ | .quoted _, _ | .opposite _, _ | .cast _, _ | .group _, _ | .element _ _, _ | .call _ _, _
  | .array _, _ => List.forall_mem_nil _

/-- **Operators find their places.** Hanging the operators and operands of a legible term in, from left to right,
builds the term. -/
theorem attachAll_links : ∀ {T : Term}, T.Legible → T.first.attachAll T.links = T
  | .binary op left right, h => by
    obtain ⟨-, hleft, hright, hl, hr⟩ := h
    have hmore : ∀ x ∈ right.links, Java.level op < Java.level x.1 :=
      fun x hx => Nat.lt_of_lt_of_le hright (level_le_of_mem_links hr x hx)
    calc (Term.binary op left right).first.attachAll (Term.binary op left right).links
        = ((left.first.attachAll left.links).attach op right.first).attachAll right.links := by
          simp [first, links, attachAll]
      _ = (left.attach op right.first).attachAll right.links := by rw [attachAll_links hl]
      _ = (Term.binary op left right.first).attachAll right.links := by rw [attach_of_le hleft]
      _ = .binary op left (right.first.attachAll right.links) := attachAll_binary hmore _ _
      _ = .binary op left right := by rw [attachAll_links hr]
  | .word _, _ | .quoted _, _ | .opposite _, _ | .cast _, _ | .group _, _ | .element _ _, _ | .call _ _, _
  | .array _, _ => rfl

/-! ## §4 What a term begins with -/

/-- A term begins with an opening bracket or with no bracket. -/
theorem pieces_head : ∀ T : Term, ∃ l more, T.pieces = l :: more ∧ ∀ c, l = .bracket c → c = '(' ∨ c = '\x7b'
  | .binary op left right => by
    obtain ⟨l, more, hpieces, hl⟩ := pieces_head left
    exact ⟨l, more ++ .operator op.symbol.toList :: right.pieces, by rw [pieces, hpieces]; rfl, hl⟩
  | .word _ | .quoted _ | .opposite _ | .element _ _ | .call _ _ => ⟨_, _, rfl, nofun⟩
  | .cast _ | .group _ => ⟨_, _, rfl, fun _ h => Or.inl (Lexeme.bracket.inj h).symm⟩
  | .array _ => ⟨_, _, rfl, fun _ h => Or.inr (Lexeme.bracket.inj h).symm⟩

/-- Only a word can stand between brackets like a type. -/
theorem eq_word_of_pieces : ∀ {T : Term} {text : List Char} {tail more : List Lexeme},
    T.pieces ++ tail = .word text :: .bracket ')' :: more → T = .word text
  | .binary op left right, text, tail, more, h => by
    rw [pieces, List.append_assoc] at h
    obtain rfl := eq_word_of_pieces h
    simp [pieces] at h
  | .word _, _, _, _, h => by simpa [pieces] using And.left (List.cons.inj h)
  | .quoted _, _, _, _, h | .opposite _, _, _, _, h | .cast _, _, _, _, h | .group _, _, _, _, h
  | .element _ _, _, _, _, h | .call _ _, _, _, _, h | .array _, _, _, _, h => by simp [pieces] at h

end Term

/-! ## §5 Reading pieces -/

/-- What stands behind an operand makes no call and no element of it. -/
def Behind (rest : List Lexeme) : Prop :=
  rest.head? ≠ some (.bracket '(') ∧ rest.head? ≠ some (.bracket '[')

/-- What stands behind a term does not go on with it. -/
def Stops (rest : List Lexeme) : Prop :=
  Behind rest ∧ ∀ text, rest.head? ≠ some (.operator text)

/-- An operand is read from its pieces. -/
def ReadsOperand (x : Term) : Prop :=
  ∀ n rest, 2 * x.pieces.length ≤ n + 1 → Behind rest → operand n (x.pieces ++ rest) = some (x, rest)

/-- A term is read from its pieces. -/
def ReadsTerm (T : Term) : Prop :=
  ∀ n rest, 2 * T.pieces.length ≤ n → Stops rest → term n (T.pieces ++ rest) = some (T, rest)

theorem operator?_symbol {op : Operator} (h : op ≠ .pow) : operator? op.symbol.toList = some op := by
  cases op with
  | pow => exact absurd rfl h
  | and | or | equal | notEqual | less | greater | add | sub | mul | div => rfl

open Term

theorem behind_links {more : List (Operator × Term)} {rest : List Lexeme} (h : Behind rest) :
    Behind (linkPieces more ++ rest) := by
  cases more with
  | nil => exact h
  | cons x more => simp [Behind, linkPieces]

/-- Operators and operands are read one after the other. -/
theorem chain_links {more : List (Operator × Term)} (hmore : ∀ x ∈ more, x.1 ≠ .pow ∧ ReadsOperand x.2) (T : Term)
    {n : Nat} {rest : List Lexeme} (hn : 2 * (linkPieces more).length < n) (hrest : Stops rest) :
    chain n T (linkPieces more ++ rest) = some (T.attachAll more, rest) := by
  induction more generalizing T n with
  | nil =>
    obtain ⟨n, rfl⟩ := Nat.exists_eq_succ_of_ne_zero (Nat.ne_zero_of_lt hn)
    cases rest with
    | nil => rfl
    | cons l rest =>
      cases l with
      | operator text => exact absurd rfl (hrest.2 text)
      | word | quoted | bracket => rfl
  | cons x more ih =>
    obtain ⟨n, rfl⟩ := Nat.exists_eq_succ_of_ne_zero (Nat.ne_zero_of_lt hn)
    obtain ⟨⟨hpow, hx⟩, hmore⟩ := List.forall_mem_cons.mp hmore
    simp only [linkPieces, List.flatMap_cons, List.length_append, List.length_cons] at hn
    have hoperand := hx n (linkPieces more ++ rest) (by omega) (behind_links hrest.1)
    have hchain := ih hmore (T.attach x.1 x.2) (n := n) (by simp only [linkPieces]; omega)
    simp only [linkPieces, List.flatMap_cons, List.cons_append, List.append_assoc] at hoperand hchain ⊢
    rw [chain, operator?_symbol hpow, Option.bind_some, hoperand, Option.bind_some]
    exact hchain

/-- A term is read if its operands are. -/
theorem readsTerm_of_links {T : Term} (h : T.Legible) (hfirst : ReadsOperand T.first)
    (hlinks : ∀ x ∈ T.links, x.1 ≠ .pow ∧ ReadsOperand x.2) : ReadsTerm T := by
  intro n rest hn hrest
  obtain ⟨l, more, hpieces, -⟩ := pieces_head T.first
  rw [pieces_eq, List.length_append, hpieces, List.length_cons] at hn
  obtain ⟨n, rfl⟩ := Nat.exists_eq_succ_of_ne_zero (show n ≠ 0 by omega)
  have hoperand := hfirst n (linkPieces T.links ++ rest) (by rw [hpieces, List.length_cons]; omega)
    (behind_links hrest.1)
  rw [pieces_eq, List.append_assoc, term, hoperand, Option.bind_some]
  -- What the operators and operands behind the first one build is the term.
  have hchain := chain_links hlinks T.first (show 2 * (linkPieces T.links).length < n by omega) hrest
  rw [attachAll_links h] at hchain
  exact hchain

/-- What closes a list of terms. -/
def Closes (c : Char) : Prop :=
  c = ')' ∨ c = '\x7d'

theorem stops_bracket {c : Char} (h : c ≠ '(' ∧ c ≠ '[') (rest : List Lexeme) : Stops (.bracket c :: rest) := by
  simp [Stops, Behind, h]

theorem stops_more {close : Char} (h : Closes close) (Ts : List Term) (rest : List Lexeme) :
    Stops (morePieces Ts ++ .bracket close :: rest) := by
  cases Ts with
  | nil => exact stops_bracket (by rcases h with rfl | rfl <;> decide) rest
  | cons next Ts => exact stops_bracket (by decide) _

theorem more_of_readsTerm {close : Char} (hclose : Closes close) {Ts : List Term} (hTs : ∀ T ∈ Ts, ReadsTerm T)
    {n : Nat} {rest : List Lexeme} (hn : 2 * (morePieces Ts).length < n) :
    more n close (morePieces Ts ++ .bracket close :: rest) = some (Ts, rest) := by
  induction Ts generalizing n with
  | nil =>
    obtain ⟨n, rfl⟩ := Nat.exists_eq_succ_of_ne_zero (Nat.ne_zero_of_lt hn)
    simp [morePieces, more]
  | cons next Ts ih =>
    obtain ⟨n, rfl⟩ := Nat.exists_eq_succ_of_ne_zero (Nat.ne_zero_of_lt hn)
    obtain ⟨hnext, hothers⟩ := List.forall_mem_cons.mp hTs
    simp only [morePieces, List.length_append, List.length_cons] at hn
    have hcomma : (',' : Char) ≠ close := by rcases hclose with rfl | rfl <;> decide
    have hterm := hnext n (morePieces Ts ++ .bracket close :: rest) (by omega) (stops_more hclose Ts rest)
    have hmore := ih hothers (n := n) (by omega)
    simp [morePieces, more, hcomma, hterm, hmore]

/-- Terms with commas between them are read up to their closing bracket. -/
theorem items_of_readsTerm {close : Char} (hclose : Closes close) {Ts : List Term} (hTs : ∀ T ∈ Ts, ReadsTerm T)
    {n : Nat} {rest : List Lexeme} (hn : 2 * (itemsPieces Ts).length + 1 < n) :
    items n close (itemsPieces Ts ++ .bracket close :: rest) = some (Ts, rest) := by
  obtain ⟨n, rfl⟩ := Nat.exists_eq_succ_of_ne_zero (Nat.ne_zero_of_lt hn)
  cases Ts with
  | nil => simp [itemsPieces, items]
  | cons T Ts =>
    obtain ⟨hT, hothers⟩ := List.forall_mem_cons.mp hTs
    simp only [itemsPieces, List.length_append] at hn
    obtain ⟨l, others, hpieces, hl⟩ := pieces_head T
    -- No term begins with a closing bracket.
    have hhead : l ≠ .bracket close := by
      rintro rfl
      rcases hl close rfl with rfl | rfl <;> rcases hclose with h | h <;> cases h
    have hterm := hT n (morePieces Ts ++ .bracket close :: rest) (by omega) (stops_more hclose Ts rest)
    have hmore : more n close (morePieces Ts ++ .bracket close :: rest) = some (Ts, rest) :=
      more_of_readsTerm hclose hothers (by rw [hpieces, List.length_cons] at hn; omega)
    rw [hpieces] at hterm
    simp only [List.cons_append] at hterm
    simp [itemsPieces, items, hpieces, hhead, hterm, hmore]

theorem readsOperand_word (text : List Char) : ReadsOperand (.word text) := by
  intro n rest hn hrest
  obtain ⟨n, rfl⟩ := Nat.exists_eq_succ_of_ne_zero (show n ≠ 0 by simp [pieces] at hn; omega)
  obtain ⟨hcall, helement⟩ := hrest
  rw [pieces, List.singleton_append, operand]
  · rintro more rfl
    exact hcall rfl
  · rintro more rfl
    exact helement rfl

theorem readsOperand_quoted (text : List Char) : ReadsOperand (.quoted text) := by
  intro n rest hn _
  obtain ⟨n, rfl⟩ := Nat.exists_eq_succ_of_ne_zero (show n ≠ 0 by simp [pieces] at hn; omega)
  rw [pieces, List.singleton_append, operand]

theorem readsOperand_opposite {x : Term} (hx : ReadsOperand x) : ReadsOperand (.opposite x) := by
  intro n rest hn hrest
  simp only [pieces, List.length_cons] at hn
  obtain ⟨n, rfl⟩ := Nat.exists_eq_succ_of_ne_zero (show n ≠ 0 by omega)
  rw [pieces, List.cons_append, operand, hx n rest (by omega) hrest]
  rfl

theorem readsOperand_cast {x : Term} (hx : ReadsOperand x) : ReadsOperand (.cast x) := by
  intro n rest hn hrest
  simp only [pieces, List.length_cons] at hn
  obtain ⟨n, rfl⟩ := Nat.exists_eq_succ_of_ne_zero (show n ≠ 0 by omega)
  simp only [pieces, intKeyword, List.cons_append]
  rw [operand, hx n rest (by omega) hrest]
  rfl

theorem readsOperand_group {inner : Term} (hword : inner ≠ .word intKeyword) (hinner : ReadsTerm inner) :
    ReadsOperand (.group inner) := by
  intro n rest hn _
  simp only [pieces, List.length_append, List.length_cons, List.length_nil] at hn
  obtain ⟨n, rfl⟩ := Nat.exists_eq_succ_of_ne_zero (show n ≠ 0 by omega)
  have hterm := hinner n (.bracket ')' :: rest) (by omega) (stops_bracket (by decide) rest)
  simp only [pieces, List.cons_append, List.append_assoc, List.nil_append]
  rw [operand, hterm]
  · rfl
  -- Between the brackets there is no type.
  · intro more hcast
    exact hword (eq_word_of_pieces hcast)

theorem readsOperand_element {name : List Char} {index : Term} (hindex : ReadsTerm index) :
    ReadsOperand (.element name index) := by
  intro n rest hn _
  simp only [pieces, List.length_append, List.length_cons, List.length_nil] at hn
  obtain ⟨n, rfl⟩ := Nat.exists_eq_succ_of_ne_zero (show n ≠ 0 by omega)
  have hterm := hindex n (.bracket ']' :: rest) (by omega) (stops_bracket (by decide) rest)
  simp only [pieces, List.cons_append, List.append_assoc, List.nil_append]
  rw [operand, hterm]
  rfl

theorem readsOperand_call {method : List Char} {arguments : List Term} (h : ∀ T ∈ arguments, ReadsTerm T) :
    ReadsOperand (.call method arguments) := by
  intro n rest hn _
  simp only [pieces, List.length_append, List.length_cons, List.length_nil] at hn
  obtain ⟨n, rfl⟩ := Nat.exists_eq_succ_of_ne_zero (show n ≠ 0 by omega)
  simp only [pieces, List.cons_append, List.append_assoc, List.nil_append]
  rw [operand, items_of_readsTerm (Or.inl rfl) h (by omega)]
  rfl

theorem readsOperand_array {elements : List Term} (h : ∀ T ∈ elements, ReadsTerm T) :
    ReadsOperand (.array elements) := by
  intro n rest hn _
  simp only [pieces, List.length_append, List.length_cons, List.length_nil] at hn
  obtain ⟨n, rfl⟩ := Nat.exists_eq_succ_of_ne_zero (show n ≠ 0 by omega)
  simp only [pieces, List.cons_append, List.append_assoc, List.nil_append]
  rw [operand, items_of_readsTerm (Or.inr rfl) h (by omega)]
  rfl

mutual

/-- The operands of a legible term are read. -/
theorem readsOperand_links : ∀ T : Term, T.Legible →
    ReadsOperand T.first ∧ ∀ x ∈ T.links, x.1 ≠ .pow ∧ ReadsOperand x.2
  | .word text, _ => ⟨readsOperand_word text, List.forall_mem_nil _⟩
  | .quoted text, _ => ⟨readsOperand_quoted text, List.forall_mem_nil _⟩
  | .opposite _, ⟨text, rfl, _⟩ => ⟨readsOperand_opposite (readsOperand_word text), List.forall_mem_nil _⟩
  | .cast x, h => by
    have hx := (readsOperand_links x h.2).1
    have hfirst : x.first = x := by
      cases x with
      | binary op left right =>
        have hlevel : Java.level op = 7 := h.1
        cases op <;> cases hlevel
      | word | quoted | opposite | cast | group | element | call | array => rfl
    rw [hfirst] at hx
    exact ⟨readsOperand_cast hx, List.forall_mem_nil _⟩
  | .group inner, h => ⟨readsOperand_group h.1 (readsTerm inner h.2), List.forall_mem_nil _⟩
  | .binary _ left right, ⟨hpow, _, _, hleft, hright⟩ => by
    obtain ⟨hl, hls⟩ := readsOperand_links left hleft
    obtain ⟨hr, hrs⟩ := readsOperand_links right hright
    exact ⟨hl, List.forall_mem_append.mpr ⟨hls, List.forall_mem_cons.mpr ⟨⟨hpow, hr⟩, hrs⟩⟩⟩
  | .element _ index, h => ⟨readsOperand_element (readsTerm index h.2), List.forall_mem_nil _⟩
  | .call _ arguments, h => ⟨readsOperand_call (readsTerm_all arguments h.2), List.forall_mem_nil _⟩
  | .array elements, h => ⟨readsOperand_array (readsTerm_all elements h), List.forall_mem_nil _⟩

theorem readsTerm (T : Term) (h : T.Legible) : ReadsTerm T :=
  readsTerm_of_links h (readsOperand_links T h).1 (readsOperand_links T h).2

theorem readsTerm_all : ∀ Ts : List Term, AllLegible Ts → ∀ T ∈ Ts, ReadsTerm T
  | [], _ => List.forall_mem_nil _
  | T :: rest, h => List.forall_mem_cons.mpr ⟨readsTerm T h.1, readsTerm_all rest h.2⟩

end

/-- **Legible terms are read as they are written.** -/
theorem read_of_legible {T : Term} (h : T.Legible) : read (String.ofList T.chars) = some T := by
  have hlexemes := lexemes_chars T h [] nofun
  have hterm := readsTerm T h (2 * T.pieces.length) [] (Nat.le_refl _) (by simp [Stops, Behind])
  rw [List.append_nil] at hlexemes hterm
  have hempty : lexemes [] = [] := rfl
  rw [read, String.toList_ofList, hlexemes, hempty, List.append_nil, hterm]

end BlockLang.Java
