import BlockLang.Proofs.Token.Tiling

/-!
# Quoted literals

What the scanner does behind a quote is told by the text there: either elements and the closing quote follow, and the
literal is one token, or the elements end where no further one can stand, and this place is the error.

## Layers

- `Stuck`: texts that no element begins, each with the error there.
- `Faulty`: the same behind some elements of a literal, where a character literal has room for one element only.

## Main statements

- `Scan.token_of_closed`, `Scan.token_of_faulty`: what is scanned at a quote.
- `Scan.closed_or_faulty`: there is no third case.
-/

namespace BlockLang

/-! ## §1 Moves of a cursor -/

namespace Cursor

variable {start : Nat} {behind rest : List Char} {p : CharClass} {x : Char}

@[simp] theorem eat_nil : (⟨start, behind, []⟩ : Cursor).eat [p] = (false, ⟨start, behind, []⟩) := rfl

theorem eat_cons : (⟨start, behind, x :: rest⟩ : Cursor).eat [p] =
    if p x then (true, ⟨start, x :: behind, rest⟩) else (false, ⟨start, behind, x :: rest⟩) := by
  simp [eat, peek, matchesAll, advance]

@[simp] theorem peek_nil : (⟨start, behind, []⟩ : Cursor).peek [p] = false := rfl

@[simp] theorem peek_cons : (⟨start, behind, x :: rest⟩ : Cursor).peek [p] = p x := by
  simp [peek, matchesAll]

end Cursor

/-! ## §2 Elements -/

/-- No element of a literal begins the text: the error, and how many characters stand before the offending one. -/
inductive Stuck : List Char → Nat → (Nat → LexicalError) → Prop where
  /-- The text ends. -/
  | ended : Stuck [] 0 .unterminatedLiteral
  /-- The text ends behind a backslash. -/
  | cut : Stuck ['\\'] 1 .unterminatedLiteral
  | escape {x : Char} {more : List Char} (h : Escape.isEscape x = false) : Stuck ('\\' :: x :: more) 1 .invalidEscape
  | lineBreak {x : Char} {more : List Char} (h : CharClass.lineBreak x = true) :
    Stuck (x :: more) 0 .lineBreakInLiteral

/-- A text that does not begin with the quote begins with an element, or no element begins it. -/
theorem isElement_or_stuck {quote : Char} {text : List Char} (h : ∀ more, text ≠ quote :: more) :
    (∃ e more, text = e ++ more ∧ IsElement quote e) ∨ ∃ d cause, Stuck text d cause := by
  cases text with
  | nil => exact .inr ⟨0, _, .ended⟩
  | cons x more =>
    by_cases hslash : x = '\\'
    · subst hslash
      cases more with
      | nil => exact .inr ⟨1, _, .cut⟩
      | cons y rest =>
        cases hescape : Escape.isEscape y with
        | true => exact .inl ⟨['\\', y], rest, rfl, Or.inr ⟨y, rfl, hescape⟩⟩
        | false => exact .inr ⟨1, _, .escape hescape⟩
    · cases hbreak : CharClass.lineBreak x with
      | true => exact .inr ⟨0, _, .lineBreak hbreak⟩
      | false =>
        have hquote : x ≠ quote := fun heq => h more (by rw [heq])
        exact .inl ⟨[x], more, rfl, Or.inl ⟨x, rfl, hslash, hquote, hbreak⟩⟩

theorem IsElement.length_pos {quote : Char} {e : List Char} (h : IsElement quote e) : 0 < e.length := by
  rcases h with ⟨c, rfl, -⟩ | ⟨c, rfl, -⟩ <;> simp

/-- Only the characters up to the offending one matter. -/
theorem Stuck.congr {text text' : List Char} {d : Nat} {cause : Nat → LexicalError} (h : Stuck text d cause)
    (hlt : d < text.length) (hsame : text.take (d + 1) <+: text') : Stuck text' d cause := by
  obtain ⟨more, rfl⟩ := hsame
  cases h with
  | ended => simp at hlt
  | cut => simp at hlt
  | escape h => exact .escape h
  | lineBreak h => exact .lineBreak h

theorem Stuck.le {text : List Char} {d : Nat} {cause : Nat → LexicalError} (h : Stuck text d cause) :
    d ≤ text.length := by
  cases h <;> simp

theorem Stuck.offset_cause {text : List Char} {d : Nat} {cause : Nat → LexicalError} (h : Stuck text d cause)
    (n : Nat) : (cause n).offset = n := by
  cases h <;> rfl

/-- At most a backslash stands before the offending character, and an escape sequence can be made of it. -/
theorem Stuck.take {text : List Char} {d : Nat} {cause : Nat → LexicalError} (h : Stuck text d cause) :
    text.take d = [] ∨ text.take d = ['\\'] := by
  cases h with
  | ended => exact .inl rfl
  | cut => exact .inr rfl
  | escape _ => exact .inr rfl
  | lineBreak _ => exact .inl rfl

/-- No quote is stuck: it closes the literal or is an element of it. -/
theorem Stuck.ne_quote {quote : Char} {text : List Char} {d : Nat} {cause : Nat → LexicalError}
    (hquote : quote = '\'' ∨ quote = '"') (h : Stuck text d cause) (more : List Char) : text ≠ quote :: more := by
  rintro rfl
  cases h with
  | cut => rcases hquote with h | h <;> exact absurd h (by decide)
  | escape _ => rcases hquote with h | h <;> exact absurd h (by decide)
  | lineBreak h => rcases hquote with rfl | rfl <;> exact absurd h (by decide)

namespace Scan

variable {base start : Nat} {behind more tail : List Char} {quote : Char} {elements : List (List Char)} {d : Nat}
  {cause : Nat → LexicalError}

theorem element_of_isElement {e : List Char} (h : IsElement quote e) :
    element base ⟨start, behind, e ++ more⟩ = .ok ⟨start, e.reverse ++ behind, more⟩ := by
  rcases h with ⟨c, rfl, hslash, -, hbreak⟩ | ⟨c, rfl, hescape⟩
  · simp [element, Cursor.eat_cons, CharClass.backslash, hslash, hbreak, CharClass.any]
  · simp [element, Cursor.eat_cons, CharClass.backslash, CharClass.escape, hescape]

theorem element_of_stuck (h : Stuck tail d cause) :
    element base ⟨start, behind, tail⟩ = .error (cause (base + behind.length + d)) := by
  cases h with
  | ended => simp [element, failAt]
  | cut => simp [element, Cursor.eat_cons, CharClass.backslash, Cursor.isEmpty, failAt, Nat.add_assoc]
  | escape h =>
    simp [element, Cursor.eat_cons, CharClass.backslash, CharClass.escape, h, Cursor.isEmpty, failAt, Nat.add_assoc]
  | @lineBreak x more h =>
    have hslash : x ≠ '\\' := by rintro rfl; exact absurd h (by decide)
    simp [element, Cursor.eat_cons, CharClass.backslash, hslash, h, failAt]

/-! ## §3 Bodies of literals -/

/-- A text does not begin with a single quote where an element or nothing begins it. -/
theorem eat_singleQuote_of_ne (h : ∀ more, tail ≠ '\'' :: more) :
    (⟨start, behind, tail⟩ : Cursor).eat [CharClass.singleQuote] = (false, ⟨start, behind, tail⟩) := by
  cases tail with
  | nil => rfl
  | cons x more =>
    have hx : x ≠ '\'' := fun heq => h more (by rw [heq])
    simp [Cursor.eat_cons, CharClass.singleQuote, hx]

theorem peek_singleQuote_of_ne (h : ∀ more, tail ≠ '\'' :: more) :
    (⟨start, behind, tail⟩ : Cursor).peek [CharClass.singleQuote] = false := by
  cases tail with
  | nil => rfl
  | cons x more =>
    have hx : x ≠ '\'' := fun heq => h more (by rw [heq])
    simp [CharClass.singleQuote, hx]

theorem characterBody_of_stuck (h : Stuck tail d cause) :
    characterBody base ⟨start, behind, tail⟩ = .error (cause (base + behind.length + d)) := by
  have hquote : (⟨start, behind, tail⟩ : Cursor).peek [CharClass.singleQuote] = false :=
    peek_singleQuote_of_ne (h.ne_quote (Or.inl rfl))
  simp [characterBody, hquote, element_of_stuck h]

/-- Behind one element only the closing quote can stand. -/
theorem characterBody_of_open {e : List Char} (h : IsElement '\'' e) (htail : ∀ more, tail ≠ '\'' :: more) :
    characterBody base ⟨start, behind, e ++ tail⟩ =
      if (⟨start, e.reverse ++ behind, tail⟩ : Cursor).peek [CharClass.lineBreak]
      then .error (.lineBreakInLiteral (base + (e.length + behind.length)))
      else .error (.unterminatedLiteral (base + (e.length + behind.length))) := by
  have hquote : (⟨start, behind, e ++ tail⟩ : Cursor).peek [CharClass.singleQuote] = false := by
    obtain ⟨c, rest, rfl, hc⟩ := h.head_ne (by decide)
    simp [CharClass.singleQuote, hc]
  simp [characterBody, hquote, element_of_isElement h, eat_singleQuote_of_ne htail, failAt]

theorem characterBody_of_closed {e : List Char} (h : IsElement '\'' e) :
    characterBody base ⟨start, behind, e ++ '\'' :: more⟩ = .ok ⟨start, '\'' :: (e.reverse ++ behind), more⟩ := by
  have hquote : (⟨start, behind, e ++ '\'' :: more⟩ : Cursor).peek [CharClass.singleQuote] = false := by
    obtain ⟨c, rest, rfl, hc⟩ := h.head_ne (by decide)
    simp [CharClass.singleQuote, hc]
  simp [characterBody, hquote, element_of_isElement h, Cursor.eat_cons, CharClass.singleQuote]

/-- A text does not begin with a double quote where an element or nothing begins it. -/
theorem eat_doubleQuote_of_ne (h : ∀ more, tail ≠ '"' :: more) :
    (⟨start, behind, tail⟩ : Cursor).eat [CharClass.doubleQuote] = (false, ⟨start, behind, tail⟩) := by
  cases tail with
  | nil => rfl
  | cons x more =>
    have hx : x ≠ '"' := fun heq => h more (by rw [heq])
    simp [Cursor.eat_cons, CharClass.doubleQuote, hx]

theorem stringBody_quote (n : Nat) : stringBody base n ⟨start, behind, '"' :: more⟩ =
    .ok ⟨start, '"' :: behind, more⟩ := by
  unfold stringBody
  rw [Cursor.eat_cons]
  rfl

theorem stringBody_element {e : List Char} (h : IsElement '"' e) (n : Nat) :
    stringBody base (n + 1) ⟨start, behind, e ++ more⟩ = stringBody base n ⟨start, e.reverse ++ behind, more⟩ := by
  have hquote : ∀ rest, e ++ more ≠ '"' :: rest := by
    obtain ⟨c, rest, rfl, hc⟩ := h.head_ne (by decide)
    intro rest' heq
    exact hc (List.cons.inj heq).1
  rw [stringBody.eq_def base (n + 1)]
  simp only [eat_doubleQuote_of_ne hquote, element_of_isElement h]

theorem stringBody_stuck (h : Stuck tail d cause) (n : Nat) :
    stringBody base n ⟨start, behind, tail⟩ = .error (cause (base + behind.length + d)) := by
  unfold stringBody
  rw [eat_doubleQuote_of_ne (h.ne_quote (Or.inr rfl))]
  simp only [element_of_stuck h]

/-- Elements are consumed one after the other. -/
theorem stringBody_elements {n m : Nat} (h : ∀ e ∈ elements, IsElement '"' e) (hn : n = elements.length + m) :
    stringBody base n ⟨start, behind, elements.flatten ++ tail⟩ =
      stringBody base m ⟨start, elements.flatten.reverse ++ behind, tail⟩ := by
  induction elements generalizing n behind with
  | nil =>
    obtain rfl : n = m := by simpa using hn
    rfl
  | cons e rest ih =>
    obtain ⟨he, hrest⟩ := List.forall_mem_cons.mp h
    have hsplit : n = rest.length + m + 1 := by
      rw [hn, List.length_cons]
      omega
    rw [hsplit, List.flatten_cons, List.append_assoc, stringBody_element he, ih hrest rfl, List.reverse_append,
      List.append_assoc]

theorem length_le_flatten (h : ∀ e ∈ elements, IsElement quote e) : elements.length ≤ elements.flatten.length := by
  induction elements with
  | nil => exact le_rfl
  | cons e rest ih =>
    obtain ⟨he, hrest⟩ := List.forall_mem_cons.mp h
    have hpos := he.length_pos
    have hle := ih hrest
    rw [List.flatten_cons, List.length_append, List.length_cons]
    omega

/-! ## §4 Literals -/

/-- The kind of the literals between some quotes. -/
def literalKind (quote : Char) : TokenKind :=
  if quote = '\'' then .character else .string

/-- Behind some elements of a literal its text cannot go on: the error, and how many characters of the text stand
before the offending one. A character literal has room for one element. -/
inductive Faulty : Char → List (List Char) → List Char → Nat → (Nat → LexicalError) → Prop where
  | string {elements : List (List Char)} {tail : List Char} {d : Nat} {cause : Nat → LexicalError}
    (h : Stuck tail d cause) : Faulty '"' elements tail d cause
  | character {tail : List Char} {d : Nat} {cause : Nat → LexicalError} (h : Stuck tail d cause) :
    Faulty '\'' [] tail d cause
  | empty {more : List Char} : Faulty '\'' [] ('\'' :: more) 0 .emptyCharacter
  | ended {e : List Char} : Faulty '\'' [e] [] 0 .unterminatedLiteral
  | lineBreak {e : List Char} {x : Char} {more : List Char} (h : CharClass.lineBreak x = true) :
    Faulty '\'' [e] (x :: more) 0 .lineBreakInLiteral
  | second {e : List Char} {x : Char} {more : List Char} (h : x ≠ '\'') (hbreak : CharClass.lineBreak x = false) :
    Faulty '\'' [e] (x :: more) 0 .unterminatedLiteral

theorem Faulty.congr {tail' : List Char} (h : Faulty quote elements tail d cause) (hlt : d < tail.length)
    (hsame : tail.take (d + 1) <+: tail') : Faulty quote elements tail' d cause := by
  cases h with
  | string h => exact .string (h.congr hlt hsame)
  | character h => exact .character (h.congr hlt hsame)
  | ended => simp at hlt
  | empty =>
    obtain ⟨more, rfl⟩ := hsame
    exact .empty
  | lineBreak h =>
    obtain ⟨more, rfl⟩ := hsame
    exact .lineBreak h
  | second h hbreak =>
    obtain ⟨more, rfl⟩ := hsame
    exact .second h hbreak

theorem Faulty.le (h : Faulty quote elements tail d cause) : d ≤ tail.length := by
  cases h with
  | string h => exact h.le
  | character h => exact h.le
  | empty | ended | lineBreak _ | second _ _ => exact Nat.zero_le _

theorem Faulty.offset_cause (h : Faulty quote elements tail d cause) (n : Nat) : (cause n).offset = n := by
  cases h with
  | string h => exact h.offset_cause n
  | character h => exact h.offset_cause n
  | empty | ended | lineBreak _ | second _ _ => rfl

theorem Faulty.quote_mem (h : Faulty quote elements tail d cause) : quote = '\'' ∨ quote = '"' := by
  cases h <;> simp

/-- Up to the offending character the literal can be closed. -/
theorem Faulty.completes (hall : ∀ e ∈ elements, IsElement quote e) (h : Faulty quote elements tail d cause) :
    ∃ more elements', elements.flatten ++ tail.take d ++ more = List.flatten elements' ++ [quote] ∧
      (∀ e ∈ elements', IsElement quote e) ∧ (quote = '\'' → elements'.length = 1) := by
  have hplain : IsElement '\'' ['n'] := Or.inl ⟨'n', rfl, by decide⟩
  have hescaped : ∀ q, IsElement q ['\\', 'n'] := fun q => Or.inr ⟨'n', rfl, rfl⟩
  cases h with
  | string h =>
    rcases h.take with htake | htake <;> rw [htake]
    · exact ⟨['"'], elements, by simp, hall, by simp⟩
    · refine ⟨['n', '"'], elements ++ [['\\', 'n']], by simp, ?_, by simp⟩
      exact List.forall_mem_append.mpr ⟨hall, List.forall_mem_singleton.mpr (hescaped _)⟩
  | character h =>
    rcases h.take with htake | htake <;> rw [htake]
    · exact ⟨['n', '\''], [['n']], by simp, List.forall_mem_singleton.mpr hplain, fun _ => rfl⟩
    · exact ⟨['n', '\''], [['\\', 'n']], by simp, List.forall_mem_singleton.mpr (hescaped _), fun _ => rfl⟩
  | empty => exact ⟨['n', '\''], [['n']], by simp, List.forall_mem_singleton.mpr hplain, fun _ => rfl⟩
  | @ended e | @lineBreak e | @second e => exact ⟨['\''], [e], by simp, hall, fun _ => rfl⟩

/-- What is behind a quote, cut at the elements of the literal: its closing quote follows, or the literal is faulty. -/
def Shape (quote : Char) (text : List Char) : Prop :=
  ∃ elements : List (List Char), (∀ e ∈ elements, IsElement quote e) ∧
    ((∃ more, text = elements.flatten ++ quote :: more ∧ (quote = '\'' → elements.length = 1)) ∨
      ∃ tail d cause, text = elements.flatten ++ tail ∧ Faulty quote elements tail d cause)

theorem shape_string (text : List Char) : Shape '"' text := by
  induction hlen : text.length using Nat.strong_induction_on generalizing text with
  | _ k ih =>
    by_cases hfirst : ∃ more, text = '"' :: more
    · obtain ⟨more, rfl⟩ := hfirst
      exact ⟨[], by simp, .inl ⟨more, rfl, by simp⟩⟩
    · obtain ⟨e, more, rfl, he⟩ | ⟨d, cause, hstuck⟩ := isElement_or_stuck (not_exists.mp hfirst)
      · have hlt : more.length < k := by
          have hpos := he.length_pos
          rw [← hlen, List.length_append]
          omega
        -- what follows the element has a shape; the element stands in front of its elements
        obtain ⟨elements, hall, hshape⟩ := ih _ hlt more rfl
        refine ⟨e :: elements, List.forall_mem_cons.mpr ⟨he, hall⟩, ?_⟩
        rcases hshape with ⟨tail, rfl, -⟩ | ⟨tail, d, cause, rfl, ⟨hstuck⟩⟩
        · exact .inl ⟨tail, by simp, by simp⟩
        · exact .inr ⟨tail, d, cause, by simp, .string hstuck⟩
      · exact ⟨[], by simp, .inr ⟨text, d, cause, rfl, .string hstuck⟩⟩

theorem shape_character (text : List Char) : Shape '\'' text := by
  by_cases hfirst : ∃ more, text = '\'' :: more
  · obtain ⟨more, rfl⟩ := hfirst
    exact ⟨[], by simp, .inr ⟨_, _, _, rfl, .empty⟩⟩
  · obtain ⟨e, more, rfl, he⟩ | ⟨d, cause, hstuck⟩ := isElement_or_stuck (not_exists.mp hfirst)
    · refine ⟨[e], List.forall_mem_singleton.mpr he, ?_⟩
      rw [List.flatten_singleton]
      cases more with
      | nil => exact .inr ⟨_, _, _, rfl, .ended⟩
      | cons x rest =>
        by_cases hx : x = '\''
        · exact .inl ⟨rest, by rw [hx], fun _ => rfl⟩
        · cases hbreak : CharClass.lineBreak x with
          | true => exact .inr ⟨_, _, _, rfl, .lineBreak hbreak⟩
          | false => exact .inr ⟨_, _, _, rfl, .second hx hbreak⟩
    · exact ⟨[], by simp, .inr ⟨text, d, cause, rfl, .character hstuck⟩⟩

/-- What follows a quote is a closed literal, or a faulty one. -/
theorem closed_or_faulty (hquote : quote = '\'' ∨ quote = '"') (text : List Char) : Shape quote text := by
  rcases hquote with rfl | rfl
  · exact shape_character text
  · exact shape_string text

theorem token_single (offset : Nat) (rest : List Char) : token offset '\'' rest =
    (characterBody (offset + 1) (Cursor.ofText rest 0)).map fun last => (.character, last.behind.length) := rfl

theorem token_double (offset : Nat) (rest : List Char) : token offset '"' rest =
    (stringBody (offset + 1) rest.length (Cursor.ofText rest 0)).map fun last => (.string, last.behind.length) := rfl

theorem token_of_closed (hquote : quote = '\'' ∨ quote = '"') (h : ∀ e ∈ elements, IsElement quote e)
    (hone : quote = '\'' → elements.length = 1) (offset : Nat) :
    token offset quote (elements.flatten ++ quote :: more) =
      .ok (literalKind quote, elements.flatten.length + 1) := by
  rcases hquote with rfl | rfl
  · obtain ⟨e, rfl⟩ := List.length_eq_one_iff.mp (hone rfl)
    rw [token_single, Cursor.ofText, List.flatten_singleton, characterBody_of_closed (h e (List.mem_singleton_self e))]
    simp [Except.map, literalKind]
  · have hle := length_le_flatten h
    have hn : (elements.flatten ++ '"' :: more).length = elements.length +
        ((elements.flatten ++ '"' :: more).length - elements.length) := by
      rw [List.length_append]
      omega
    rw [token_double, Cursor.ofText, stringBody_elements h hn, stringBody_quote]
    simp [Except.map, literalKind]

theorem tokens_of_length_le {inside offset : Nat} {cs : List Char} (h : cs.length ≤ inside) :
    tokens inside offset cs = .ok [] := by
  induction cs generalizing inside offset with
  | nil => cases inside <;> rfl
  | cons c rest ih =>
    obtain ⟨n, rfl⟩ := Nat.exists_eq_add_one_of_ne_zero (Nat.ne_zero_of_lt (Nat.lt_of_lt_of_le (Nat.succ_pos _) h))
    exact ih (Nat.le_of_succ_le_succ h)

/-- A closed literal is one token. -/
theorem tokens_of_closed (hquote : quote = '\'' ∨ quote = '"') (h : ∀ e ∈ elements, IsElement quote e)
    (hone : quote = '\'' → elements.length = 1) (offset : Nat) :
    tokens 0 offset (quote :: (elements.flatten ++ [quote])) =
      .ok [⟨literalKind quote, String.ofList (quote :: (elements.flatten ++ [quote])), offset⟩] := by
  have hblank : isBlank quote = false := by rcases hquote with rfl | rfl <;> rfl
  have hlength : (elements.flatten ++ [quote]).length = elements.flatten.length + 1 := by simp
  simp only [tokens, hblank, token_of_closed hquote h hone]
  rw [tokens_of_length_le hlength.le, List.take_of_length_le hlength.le]
  rfl

theorem token_of_faulty (h : ∀ e ∈ elements, IsElement quote e) (hfault : Faulty quote elements tail d cause)
    (offset : Nat) : token offset quote (elements.flatten ++ tail) =
      .error (cause (offset + 1 + elements.flatten.length + d)) := by
  cases hfault with
  | string hstuck =>
    have hle := length_le_flatten h
    have hn : (elements.flatten ++ tail).length = elements.length +
        ((elements.flatten ++ tail).length - elements.length) := by
      rw [List.length_append]
      omega
    rw [token_double, Cursor.ofText, stringBody_elements h hn, stringBody_stuck hstuck]
    simp [Except.map]
  | character hstuck =>
    rw [token_single, Cursor.ofText, List.flatten_nil, List.nil_append, characterBody_of_stuck hstuck]
    simp [Except.map]
  | empty => simp [token_single, Cursor.ofText, characterBody, CharClass.singleQuote, failAt, Except.map]
  | @ended e =>
    have he := h e (List.mem_singleton_self e)
    rw [token_single, Cursor.ofText, List.flatten_singleton, characterBody_of_open he (by simp)]
    simp [Except.map]
  | @lineBreak e x more hbreak =>
    have he := h e (List.mem_singleton_self e)
    have hx : x ≠ '\'' := by rintro rfl; exact absurd hbreak (by decide)
    rw [token_single, Cursor.ofText, List.flatten_singleton, characterBody_of_open he (by simp [hx])]
    simp [hbreak, Except.map]
  | @second e x more hx hbreak =>
    have he := h e (List.mem_singleton_self e)
    rw [token_single, Cursor.ofText, List.flatten_singleton, characterBody_of_open he (by simp [hx])]
    simp [hbreak, Except.map]

end Scan

end BlockLang
