import BlockLang.Token.Scan
import Mathlib.Data.List.TakeWhile
import Mathlib.Tactic.SplitIfs

/-!
# Lexical forms

The texts that a token of each kind can have, stated without the scanner, and the fact that every token the scanner
yields has a text of the form of its kind.

## Main statement

- `form_of_mem_tokenize`: each token of a scanned text has the form of its kind.
-/

namespace BlockLang

/-! ## §1 The forms -/

/-- Digits without leading zeros. -/
def IsWhole (text : List Char) : Prop :=
  text = ['0'] ∨ ∃ c rest, text = c :: rest ∧ c ≠ '0' ∧ ∀ d ∈ c :: rest, d.isDigit

/-- Digits without leading zeros and a sign before them, if there is more than a zero. -/
def IsInteger (text : List Char) : Prop :=
  IsWhole text ∨ ∃ whole, text = '-' :: whole ∧ IsWhole whole ∧ whole ≠ ['0']

/-- A sign or none, digits without leading zeros, a point, and at least one digit. -/
def IsDecimal (text : List Char) : Prop :=
  ∃ sign whole fraction, text = sign ++ whole ++ '.' :: fraction ∧ (sign = [] ∨ sign = ['-']) ∧ IsWhole whole ∧
    fraction ≠ [] ∧ ∀ d ∈ fraction, d.isDigit

/-- One character or one escape sequence between two quotes. -/
def IsElement (quote : Char) (text : List Char) : Prop :=
  (∃ c, text = [c] ∧ c ≠ '\\' ∧ c ≠ quote ∧ CharClass.lineBreak c = false) ∨
    ∃ c, text = ['\\', c] ∧ Escape.isEscape c

/-- The texts that a token of some kind can have. -/
def TokenKind.Form : TokenKind → List Char → Prop
  | identifier, text => ∃ c rest, text = c :: rest ∧ startsName c ∧ ∀ d ∈ rest, continuesName d
  | integer, text => IsInteger text
  | decimal, text => IsDecimal text
  | character, text => ∃ body, text = '\'' :: (body ++ ['\'']) ∧ IsElement '\'' body
  | string, text =>
    ∃ elements : List (List Char), text = '"' :: (elements.flatten ++ ['"']) ∧ ∀ e ∈ elements, IsElement '"' e
  | operator, text => (∃ c, text = [c] ∧ isOperatorChar c) ∨ ∃ p ∈ pairedOperators, text = [p.1, p.2]

/-- A token whose text has the form of its kind. -/
def Token.Proper (t : Token) : Prop :=
  t.kind.Form t.text.toList

namespace Scan

/-! ## §2 Runs of characters -/

/-- As many characters as a run has are the run. -/
theorem take_length_takeWhile (p : Char → Bool) (cs : List Char) :
    cs.take (cs.takeWhile p).length = cs.takeWhile p :=
  (List.prefix_iff_eq_take.mp (List.takeWhile_prefix p)).symm

/-- The characters of a run are of its class. -/
theorem of_mem_take_takeWhile {p : Char → Bool} {cs : List Char} {d : Char}
    (h : d ∈ cs.take (cs.takeWhile p).length) : p d := by
  rw [take_length_takeWhile] at h
  exact List.mem_takeWhile_imp h

/-! ## §3 Numbers -/

/-- A digit other than zero and the digits behind it are a whole part. -/
theorem isWhole_takeWhile {c : Char} {rest : List Char} (hzero : c ≠ '0') (hdigit : c.isDigit) :
    IsWhole (c :: rest.take (rest.takeWhile Char.isDigit).length) := by
  refine Or.inr ⟨c, _, rfl, hzero, fun d hd => ?_⟩
  rcases List.mem_cons.mp hd with rfl | hd
  · exact hdigit
  · exact of_mem_take_takeWhile hd

/-- What a number starts with: a whole part, and a minus sign before it if it starts with one. -/
theorem isWhole_of_wholeLength? {c : Char} {rest : List Char} {w : Nat} (h : wholeLength? c rest = some w) :
    (c ≠ '-' ∧ IsWhole (c :: rest.take w)) ∨
      (c = '-' ∧ IsWhole (rest.take w) ∧ (rest.take w = ['0'] ↔ rest.head? = some '0')) := by
  unfold wholeLength? at h
  split_ifs at h with hzero hdigit hminus
  · obtain rfl := Option.some.inj h
    exact Or.inl ⟨by rw [hzero]; decide, Or.inl (by rw [hzero, List.take_zero])⟩
  · obtain rfl := Option.some.inj h
    exact Or.inl ⟨fun hc => absurd (hc ▸ hdigit) (by decide), isWhole_takeWhile hzero hdigit⟩
  · refine Or.inr ⟨hminus, ?_⟩
    cases rest with
    | nil => simp at h
    | cons d more =>
      simp only at h
      split_ifs at h with hd0 hd
      · obtain rfl := Option.some.inj h
        exact ⟨Or.inl (by simp [hd0]), by simp [hd0]⟩
      · obtain rfl := Option.some.inj h
        rw [Nat.add_comm, List.take_succ_cons]
        exact ⟨isWhole_takeWhile hd0 hd, by simp [hd0]⟩

/-- A fraction is a point and at least one digit. -/
theorem digits_of_fractionLength? {cs : List Char} {f : Nat} (h : fractionLength? cs = some f) :
    ∃ fraction, cs.take f = '.' :: fraction ∧ fraction ≠ [] ∧ ∀ d ∈ fraction, d.isDigit := by
  unfold fractionLength? at h
  split at h
  · rename_i d more
    split_ifs at h with hd
    obtain rfl := Option.some.inj h
    refine ⟨d :: more.take (more.takeWhile Char.isDigit).length, ?_, List.cons_ne_nil _ _, ?_⟩
    · rw [Nat.add_comm, List.take_succ_cons, List.take_succ_cons]
    · intro e he
      rcases List.mem_cons.mp he with rfl | he
      · exact hd
      · exact of_mem_take_takeWhile he
  · exact absurd h (by simp)

/-- What is scanned as a number is one. -/
theorem form_of_number? {c : Char} {rest : List Char} {kind : TokenKind} {n : Nat}
    (h : number? c rest = some (kind, n)) : kind.Form (c :: rest.take n) := by
  unfold number? at h
  split at h
  · exact absurd h (by simp)
  · rename_i w hw
    have hwhole := isWhole_of_wholeLength? hw
    split at h
    · rename_i f hf
      simp only [Option.some.injEq, Prod.mk.injEq] at h
      obtain ⟨rfl, rfl⟩ := h
      obtain ⟨fraction, htake, hne, hdigits⟩ := digits_of_fractionLength? hf
      have hsplit : rest.take (w + f) = rest.take w ++ '.' :: fraction := by
        rw [List.take_add, htake]
      rcases hwhole with ⟨_, hwhole⟩ | ⟨rfl, hwhole, _⟩
      · exact ⟨[], c :: rest.take w, fraction, by simp [hsplit], Or.inl rfl, hwhole, hne, hdigits⟩
      · exact ⟨['-'], rest.take w, fraction, by simp [hsplit], Or.inr rfl, hwhole, hne, hdigits⟩
    · split_ifs at h with hzero
      simp only [Option.some.injEq, Prod.mk.injEq] at h
      obtain ⟨rfl, rfl⟩ := h
      rcases hwhole with ⟨_, hwhole⟩ | ⟨rfl, hwhole, hhead⟩
      · exact Or.inl hwhole
      · exact Or.inr ⟨_, rfl, hwhole, fun h0 => hzero ⟨rfl, hhead.mp h0⟩⟩

/-! ## §4 Literals -/

/-- Moving past one character of a class. -/
theorem eat_one {c d : Cursor} {p : CharClass} (h : c.eat [p] = (true, d)) :
    ∃ x rest, c.rest = x :: rest ∧ p x ∧ d = ⟨c.start, x :: c.behind, rest⟩ := by
  unfold Cursor.eat at h
  split at h
  · rename_i hp
    cases hrest : c.rest with
    | nil => simp [Cursor.peek, hrest, Cursor.matchesAll] at hp
    | cons x rest =>
      simp only [Cursor.peek, hrest, Cursor.matchesAll, Bool.and_true] at hp
      simp only [Prod.mk.injEq, true_and] at h
      exact ⟨x, rest, rfl, hp, by simp [← h, Cursor.advance, hrest]⟩
  · simp at h

/-- A refused character is not of the class. -/
theorem not_of_eat_false {c d : Cursor} {p : CharClass} {x : Char} {rest : List Char}
    (h : c.eat [p] = (false, d)) (hrest : c.rest = x :: rest) : p x = false := by
  unfold Cursor.eat at h
  split at h
  · simp at h
  · rename_i hp
    simpa [Cursor.peek, hrest, Cursor.matchesAll] using hp

@[simp] theorem failAt_ne_ok {α : Type} (base : Nat) (cause : Nat → LexicalError) (c : Cursor) (a : α) :
    failAt base cause c ≠ .ok a := by
  simp [failAt]

/-- The part of a text that lies between two cursors in it. -/
def Between (c d : Cursor) (part : List Char) : Prop :=
  c.rest = part ++ d.rest ∧ d.behind = part.reverse ++ c.behind

theorem Between.trans {c d e : Cursor} {p q : List Char} (h : Between c d p) (g : Between d e q) :
    Between c e (p ++ q) := by
  constructor
  · rw [h.1, g.1, List.append_assoc]
  · rw [g.2, h.2, List.reverse_append, List.append_assoc]

theorem between_of_eat {c d : Cursor} {p : CharClass} (h : c.eat [p] = (true, d)) :
    ∃ x, p x ∧ Between c d [x] := by
  obtain ⟨x, rest, hrest, hx, rfl⟩ := eat_one h
  exact ⟨x, hx, by simp [hrest], rfl⟩

/-- Moving past a closing quote. -/
theorem between_quote {c d : Cursor} (h : c.eat [CharClass.doubleQuote] = (true, d)) : Between c d ['"'] := by
  obtain ⟨x, hx, hlast⟩ := between_of_eat h
  have hx : x = '"' := by simpa [CharClass.doubleQuote] using hx
  exact hx ▸ hlast

/-- What is consumed as an element is one, unless it is the quote. -/
theorem isElement_of_element {base : Nat} {c d : Cursor} {quote : Char} (h : element base c = .ok d)
    (hquote : ∀ x rest, c.rest = x :: rest → x ≠ quote) : ∃ e, Between c d e ∧ IsElement quote e := by
  unfold element at h
  split at h
  · rename_i inside hslash
    obtain ⟨x, hx, hfirst⟩ := between_of_eat hslash
    have hx : x = '\\' := by simpa [CharClass.backslash] using hx
    subst hx
    split at h
    · rename_i next hescape
      obtain ⟨y, hy, hsecond⟩ := between_of_eat hescape
      obtain rfl := Except.ok.inj h
      exact ⟨_, hfirst.trans hsecond, Or.inr ⟨y, rfl, hy⟩⟩
    · split at h <;> simp at h
  · rename_i hslash
    split at h
    · simp at h
    · rename_i hbreak
      split at h
      · rename_i next hany
        obtain ⟨x, rest, hrest, -, hnext⟩ := eat_one hany
        obtain rfl := Except.ok.inj h
        subst hnext
        have hnot := not_of_eat_false hslash hrest
        refine ⟨[x], ⟨by simp [hrest], rfl⟩, Or.inl ⟨x, rfl, ?_, hquote x rest hrest, ?_⟩⟩
        · simpa [CharClass.backslash] using hnot
        · simpa [Cursor.peek, hrest, Cursor.matchesAll] using hbreak
      · simp at h

/-- What is consumed as the body of a character literal is one element and the closing quote. -/
theorem form_of_characterBody {base : Nat} {c d : Cursor} (h : characterBody base c = .ok d) :
    ∃ body, Between c d (body ++ ['\'']) ∧ IsElement '\'' body := by
  unfold characterBody at h
  split at h
  · simp at h
  · rename_i hempty
    have hquote : ∀ x rest, c.rest = x :: rest → x ≠ '\'' := by
      rintro x rest hrest rfl
      exact hempty (by simp [Cursor.peek, hrest, Cursor.matchesAll, CharClass.singleQuote])
    split at h
    · simp at h
    · rename_i inside helement
      obtain ⟨body, hbody, hform⟩ := isElement_of_element helement hquote
      split at h
      · rename_i next hclose
        obtain ⟨x, hx, hlast⟩ := between_of_eat hclose
        have hx : x = '\'' := by simpa [CharClass.singleQuote] using hx
        subst hx
        obtain rfl := Except.ok.inj h
        exact ⟨body, hbody.trans hlast, hform⟩
      · split at h <;> simp at h

/-- What is consumed as the body of a string literal is elements and the closing quote. -/
theorem form_of_stringBody {base n : Nat} {c d : Cursor} (h : stringBody base n c = .ok d) :
    ∃ elements : List (List Char), Between c d (elements.flatten ++ ['"']) ∧ ∀ e ∈ elements, IsElement '"' e := by
  induction n generalizing c with
  | zero =>
    unfold stringBody at h
    split at h
    · rename_i next hclose
      obtain rfl := Except.ok.inj h
      exact ⟨[], between_quote hclose, by simp⟩
    · split at h
      · simp at h
      · simp at h
      · simp_all
  | succ n ih =>
    unfold stringBody at h
    split at h
    · rename_i next hclose
      obtain rfl := Except.ok.inj h
      exact ⟨[], between_quote hclose, by simp⟩
    · rename_i hopen
      split at h
      · simp at h
      · simp_all
      · rename_i inside hm helement
        obtain rfl := Nat.succ.inj hm
        have hquote : ∀ x rest, c.rest = x :: rest → x ≠ '"' := by
          rintro x rest hrest rfl
          exact absurd (not_of_eat_false hopen hrest) (by simp [CharClass.doubleQuote])
        obtain ⟨e, he, hform⟩ := isElement_of_element helement hquote
        obtain ⟨elements, hrest, hall⟩ := ih h
        refine ⟨e :: elements, ?_, ?_⟩
        · rw [List.flatten_cons, List.append_assoc]
          exact he.trans hrest
        · intro e' he'
          rcases List.mem_cons.mp he' with rfl | he'
          · exact hform
          · exact hall e' he'

/-- A literal's text is as much of the text after its first quote as lies behind the last cursor. -/
theorem take_of_between {rest part : List Char} {d : Cursor} (h : Between (Cursor.ofText rest 0) d part) :
    rest.take d.behind.length = part := by
  have hbehind : d.behind.length = part.length := by simp [h.2, Cursor.ofText]
  have hrest : rest = part ++ d.rest := h.1
  rw [hbehind, hrest, List.take_left]

/-! ## §5 Tokens -/

/-- What is scanned as an operator is one. -/
theorem form_of_operatorLength {c : Char} (hc : isOperatorChar c) (rest : List Char) :
    TokenKind.operator.Form (c :: rest.take (operatorLength c rest)) := by
  cases rest with
  | nil => exact Or.inl ⟨c, rfl, hc⟩
  | cons d more =>
    by_cases hpair : pairedOperators.contains (c, d)
    · rw [operatorLength, if_pos hpair]
      exact Or.inr ⟨(c, d), List.contains_iff_mem.mp hpair, rfl⟩
    · rw [operatorLength, if_neg hpair]
      exact Or.inl ⟨c, rfl, hc⟩

/-- What is scanned as a token of some kind has the form of that kind. -/
theorem form_of_token {offset : Nat} {c : Char} {rest : List Char} {kind : TokenKind} {n : Nat}
    (h : token offset c rest = .ok (kind, n)) : kind.Form (c :: rest.take n) := by
  unfold token at h
  -- The first character tells names and quotations; an operator is tried where no number is found.
  by_cases hname : startsName c
  · rw [if_pos hname] at h
    simp only [Except.ok.injEq, Prod.mk.injEq] at h
    obtain ⟨rfl, rfl⟩ := h
    exact ⟨c, _, rfl, hname, fun d hd => of_mem_take_takeWhile hd⟩
  rw [if_neg hname] at h
  by_cases hsingle : c = '\''
  · rw [if_pos hsingle] at h
    cases hbody : characterBody (offset + 1) (Cursor.ofText rest 0) with
    | error e => simp [hbody, Except.map] at h
    | ok last =>
      simp only [hbody, Except.map, Except.ok.injEq, Prod.mk.injEq] at h
      obtain ⟨rfl, rfl⟩ := h
      obtain ⟨body, hbetween, hform⟩ := form_of_characterBody hbody
      exact ⟨body, by rw [hsingle, take_of_between hbetween], hform⟩
  rw [if_neg hsingle] at h
  by_cases hdouble : c = '"'
  · rw [if_pos hdouble] at h
    cases hbody : stringBody (offset + 1) rest.length (Cursor.ofText rest 0) with
    | error e => simp [hbody, Except.map] at h
    | ok last =>
      simp only [hbody, Except.map, Except.ok.injEq, Prod.mk.injEq] at h
      obtain ⟨rfl, rfl⟩ := h
      obtain ⟨elements, hbetween, hform⟩ := form_of_stringBody hbody
      exact ⟨elements, by rw [hdouble, take_of_between hbetween], hform⟩
  rw [if_neg hdouble] at h
  split at h
  · rename_i found hnumber
    obtain rfl := Except.ok.inj h
    exact form_of_number? hnumber
  · split at h
    · rename_i hop
      simp only [Except.ok.injEq, Prod.mk.injEq] at h
      obtain ⟨rfl, rfl⟩ := h
      exact form_of_operatorLength hop rest
    · simp at h

/-- Every scanned token has the form of its kind. -/
theorem proper_of_mem_tokens {inside offset : Nat} {cs : List Char} {ts : List Token}
    (h : tokens inside offset cs = .ok ts) : ∀ t ∈ ts, t.Proper := by
  induction cs generalizing inside offset ts with
  | nil =>
    cases inside <;> simp only [tokens, Except.ok.injEq] at h <;> simp [← h]
  | cons c rest ih =>
    cases inside with
    | succ n => exact ih h
    | zero =>
      unfold tokens at h
      split_ifs at h
      · exact ih h
      · split at h
        · exact absurd h (by simp)
        · rename_i kind n htoken
          cases hlater : tokens n (offset + 1) rest with
          | error e => simp [hlater, Except.map] at h
          | ok later =>
            simp only [hlater, Except.map, Except.ok.injEq] at h
            subst h
            intro t ht
            rcases List.mem_cons.mp ht with rfl | ht
            · simpa [Token.Proper] using form_of_token htoken
            · exact ih hlater t ht

end Scan

/-- Each token of a scanned text has the form of its kind. -/
theorem form_of_mem_tokenize {source : String} {ts : List Token} (h : tokenize source = .ok ts) :
    ∀ t ∈ ts, t.Proper :=
  Scan.proper_of_mem_tokens h

end BlockLang
