import BlockLang.Proofs.Grammar.Reading

/-!
# Reading what is written

`Reader.Accepts r a rest P` says that the reader `r` succeeds wherever the written form `a` is next and the symbols
`rest` follow it, that it stops in front of `rest`, and that what it yields satisfies `P`.  Readers that accept written
forms can be put together.

## Main statements

- `Accepts.bind`: a sequence of readers accepts a sequence of written forms.
- `Accepts.eat`, `Accepts.not_eat`: the next symbol decides between two readers.
- `accepts_commaSeparated`, `accepts_many`: loops read on as long as items follow.
-/

namespace BlockLang

open BlockLang.Symbol

/-! ## §1 Symbols that are next -/

theorem Token.symbol_eq_word {t : Token} {kind : TokenKind} {text : String} (h : t.symbol = .word kind text) :
    t.kind = kind ∧ t.text = text := by
  unfold Token.symbol at h
  split at h
  · simp at h
  · simpa using h

namespace ReaderState

variable {s : ReaderState} {symbol : Symbol} {rest : List Symbol} {text : String}

/-- The written form of the tokens that are left. -/
def symbols (s : ReaderState) : List Symbol :=
  s.rest.map Token.symbol

theorem exists_current (h : s.symbols = symbol :: rest) :
    ∃ tok, s.current = some tok ∧ tok.symbol = symbol ∧ s.advance.symbols = rest := by
  unfold symbols at h
  obtain ⟨tok, more, hrest, hsymbol, hmore⟩ := List.map_eq_cons_iff.mp h
  exact ⟨tok, by simp [current, hrest], hsymbol, by simp [advance, symbols, hrest, hmore]⟩

/-- Every token that is left is readable. -/
def Readable (s : ReaderState) : Prop :=
  ∀ t ∈ s.rest, t.Readable

theorem Readable.current (hs : s.Readable) {tok : Token} (h : s.current = some tok) : tok.Readable := by
  obtain ⟨more, hrest⟩ : ∃ more, s.rest = tok :: more := List.head?_eq_some_iff.mp h
  exact hs tok (by simp [hrest])

theorem Readable.advance (hs : s.Readable) : s.advance.Readable :=
  fun tok htok => hs tok (List.mem_of_mem_drop htok)

/-- Comparing texts is comparing symbols: for words and punctuation the text tells the kind. -/
theorem Readable.peek_eq (hs : s.Readable) {word : Symbol} (hword : ∀ tok : Token, tok.Readable → tok.text = text →
    tok.symbol = word) (hsymbol : ∃ kind, word = .word kind text) :
    s.peek text = decide (s.symbols.head? = some word) := by
  have hhead : s.symbols.head? = s.current.map Token.symbol := by simp [symbols, ReaderState.current]
  rw [hhead]
  unfold peek
  cases hcurrent : s.current with
  | none => simp
  | some tok =>
    have hiff : tok.text = text ↔ tok.symbol = word := by
      constructor
      · exact hword tok (hs.current hcurrent)
      · intro h
        obtain ⟨kind, rfl⟩ := hsymbol
        exact (Token.symbol_eq_word h).2
    simp [hiff]

theorem Readable.peek_mark (hs : s.Readable) (hmem : text ∈ marks) :
    s.peek text = decide (s.symbols.head? = some (mark text)) := by
  refine hs.peek_eq ?_ ⟨_, rfl⟩
  rintro tok htok rfl
  exact htok.symbol_of_mem_marks hmem

theorem Readable.peek_word (hs : s.Readable) (hmem : text ∈ keywords) :
    s.peek text = decide (s.symbols.head? = some (ident text)) := by
  refine hs.peek_eq ?_ ⟨_, rfl⟩
  rintro tok htok rfl
  exact htok.symbol_of_mem_keywords hmem

/-- A word or punctuation, by its text. -/
def IsFixed (text : String) (symbol : Symbol) : Prop :=
  (text ∈ marks ∧ symbol = mark text) ∨ (text ∈ keywords ∧ symbol = ident text)

theorem fixed_mark (h : text ∈ marks) : IsFixed text (mark text) :=
  Or.inl ⟨h, rfl⟩

theorem fixed_word (h : text ∈ keywords) : IsFixed text (ident text) :=
  Or.inr ⟨h, rfl⟩

theorem Readable.peek_fixed (hs : s.Readable) (h : IsFixed text symbol) :
    s.peek text = decide (s.symbols.head? = some symbol) := by
  rcases h with ⟨hmem, rfl⟩ | ⟨hmem, rfl⟩
  · exact hs.peek_mark hmem
  · exact hs.peek_word hmem

end ReaderState

/-! ## §2 Accepting -/

namespace Reader

open ReaderState Stateful

variable {α β : Type}

/-- Where `symbols` are next and `rest` is after them the reader succeeds, stops in front of `rest`, and yields a phrase
that satisfies `P`. -/
def Accepts (r : Reader α) (symbols rest : List Symbol) (P : α → Prop) : Prop :=
  ∀ s : ReaderState, s.Readable → s.symbols = symbols ++ rest →
    ∃ x t, r s = .ok x t ∧ P x ∧ t.Readable ∧ t.symbols = rest

variable {a b rest : List Symbol} {symbol : Symbol} {text : String} {P : α → Prop} {Q : β → Prop}

theorem accepts_pure {x : α} (h : P x) : Accepts (pure x) [] rest P :=
  fun s hs hsymbols => ⟨x, s, rfl, h, hs, hsymbols⟩

/-- A sequence accepts one written form after the other. -/
theorem Accepts.bind {r : Reader α} {f : α → Reader β} (hr : Accepts r a (b ++ rest) P)
    (hf : ∀ x, P x → Accepts (f x) b rest Q) : Accepts (r >>= f) (a ++ b) rest Q := by
  intro s hs hsymbols
  rw [List.append_assoc] at hsymbols
  obtain ⟨x, m, hx, hP, hm, hrest⟩ := hr s hs hsymbols
  obtain ⟨y, t, hy, hQ, ht, hrest'⟩ := hf x hP m hm hrest
  exact ⟨y, t, by rw [bind_of_ok hx, hy], hQ, ht, hrest'⟩

/-- The rest of a sequence may read nothing. -/
theorem Accepts.bind_nil {r : Reader α} {f : α → Reader β} (hr : Accepts r a rest P)
    (hf : ∀ x, P x → Accepts (f x) [] rest Q) : Accepts (r >>= f) a rest Q := by
  have h := Accepts.bind (b := []) hr hf
  rwa [List.append_nil] at h

theorem Accepts.get_bind {f : ReaderState → Reader β} (h : ∀ s : ReaderState, s.Readable → s.symbols = a ++ rest →
    Accepts (f s) a rest Q) : Accepts (get >>= f) a rest Q :=
  fun s hs hsymbols => h s hs hsymbols s hs hsymbols

theorem Accepts.offset_bind {f : Nat → Reader β} (h : ∀ offset, Accepts (f offset) a rest Q) :
    Accepts (offset >>= f) a rest Q :=
  fun s hs hsymbols => h s.offset s hs hsymbols

theorem Accepts.freshId_bind {f : Nat → Reader β} (h : ∀ id, Accepts (f id) a rest Q) :
    Accepts (freshId >>= f) a rest Q :=
  fun s hs hsymbols => h s.nextId { s with nextId := s.nextId + 1 } hs hsymbols

theorem Accepts.advance_bind {f : Unit → Reader β} (h : Accepts (f ()) a rest Q) :
    Accepts (advance >>= f) (symbol :: a) rest Q := by
  intro s hs hsymbols
  obtain ⟨-, -, -, hrest⟩ := exists_current hsymbols
  exact h s.advance hs.advance hrest

theorem Accepts.advance_seqRight {r : Reader β} (h : Accepts r a rest Q) :
    Accepts (advance *> r) (symbol :: a) rest Q := by
  intro s hs hsymbols
  obtain ⟨-, -, -, hrest⟩ := exists_current hsymbols
  exact h s.advance hs.advance hrest

/-- A reader that begins with punctuation or a reserved word. -/
theorem Accepts.expect_bind {f : Unit → Reader β} (hfixed : IsFixed text symbol) (h : Accepts (f ()) a rest Q) :
    Accepts (expect text >>= f) (symbol :: a) rest Q := by
  intro s hs hsymbols
  obtain ⟨-, -, -, hrest⟩ := exists_current hsymbols
  have hpeek : s.peek text = true := by simp [hs.peek_fixed hfixed, hsymbols]
  have hexpect : expect text s = .ok () s.advance := expect_eq_ok.mpr ⟨hpeek, rfl⟩
  obtain ⟨x, t, hx, hQ, ht, hrest'⟩ := h s.advance hs.advance hrest
  exact ⟨x, t, by rw [bind_of_ok hexpect, hx], hQ, ht, hrest'⟩

theorem Accepts.eat_bind {f : Bool → Reader β} (hfixed : IsFixed text symbol) (h : Accepts (f true) a rest Q) :
    Accepts (Reader.eat text >>= f) (symbol :: a) rest Q := by
  intro s hs hsymbols
  obtain ⟨-, -, -, hrest⟩ := exists_current hsymbols
  have hpeek : s.peek text = true := by simp [hs.peek_fixed hfixed, hsymbols]
  rw [Reader.eat_bind, if_pos hpeek]
  exact h s.advance hs.advance hrest

theorem Accepts.not_eat_bind {f : Bool → Reader β} (hfixed : IsFixed text symbol)
    (hhead : (a ++ rest).head? ≠ some symbol) (h : Accepts (f false) a rest Q) :
    Accepts (Reader.eat text >>= f) a rest Q := by
  intro s hs hsymbols
  have hpeek : ¬ s.peek text = true := by simpa [hs.peek_fixed hfixed, hsymbols] using hhead
  rw [Reader.eat_bind, if_neg hpeek]
  exact h s hs hsymbols

/-- The symbol that is asked for is next, so the first reader goes on. -/
theorem Accepts.eat {r r' : Reader β} (hfixed : IsFixed text symbol) (h : Accepts r a rest Q) :
    Accepts (Reader.eat text >>= fun found => if found = true then r else r') (symbol :: a) rest Q :=
  Accepts.eat_bind hfixed (by rwa [if_pos rfl])

/-- The symbol that is asked for is not next, so the second reader goes on. -/
theorem Accepts.not_eat {r r' : Reader β} (hfixed : IsFixed text symbol) (hhead : (a ++ rest).head? ≠ some symbol)
    (h : Accepts r' a rest Q) :
    Accepts (Reader.eat text >>= fun found => if found = true then r else r') a rest Q :=
  Accepts.not_eat_bind hfixed hhead (by rwa [if_neg Bool.false_ne_true])

/-- The word that is asked for is not next if another one is. -/
theorem Accepts.not_eat_word {word : String} {r r' : Reader β} (htext : text ∈ keywords) (hne : word ≠ text)
    (h : Accepts r' (ident word :: a) rest Q) :
    Accepts (Reader.eat text >>= fun found => if found = true then r else r') (ident word :: a) rest Q :=
  Accepts.not_eat (fixed_word htext) (by simpa [ident] using hne) h

theorem Accepts.identifier_bind {x : String} {f : String → Reader β} (hx : IsName x) (h : Accepts (f x) a rest Q) :
    Accepts (identifier >>= f) (ident x :: a) rest Q := by
  intro s hs hsymbols
  obtain ⟨tok, hcurrent, hsymbol, hrest⟩ := exists_current hsymbols
  obtain ⟨hkind, rfl⟩ := Token.symbol_eq_word hsymbol
  have hread : identifier s = .ok tok.text s.advance :=
    identifier_eq_ok.mpr ⟨tok, hcurrent, hkind, hx.2, rfl, rfl⟩
  obtain ⟨y, t, hy, hQ, ht, hrest'⟩ := h s.advance hs.advance hrest
  exact ⟨y, t, by rw [bind_of_ok hread, hy], hQ, ht, hrest'⟩

/-- Where another reader does the same, it may be used instead. -/
theorem Accepts.congr {r : Reader β} (h : ∀ s : ReaderState, s.Readable → s.symbols = a ++ rest →
    ∃ r' : Reader β, r s = r' s ∧ Accepts r' a rest Q) : Accepts r a rest Q := by
  intro s hs hsymbols
  obtain ⟨r', heq, hr'⟩ := h s hs hsymbols
  rw [heq]
  exact hr' s hs hsymbols

/-! ## §3 Sequences -/

section Sequences

variable {γ : Type} {item : Reader α} {symbols : α → List Symbol} {outline : α → γ} {closing : String} {xs : List α}

theorem accepts_moreItems (hclosing : closing ∈ marks) (hne : closing ≠ ",")
    (hitem : ∀ x ∈ xs, ∀ later, later.head? = some (mark ",") ∨ later.head? = some (mark closing) →
      Accepts item (symbols x) later (outline · = outline x)) {n : Nat} (hn : xs.length < n) :
    Accepts (moreItems item closing n) (xs.flatMap (mark "," :: symbols ·) ++ [mark closing]) rest
      (·.map outline = xs.map outline) := by
  -- One turn of the loop for each item behind a comma and one for the closing symbol.
  induction xs generalizing n with
  | nil =>
    obtain ⟨m, rfl⟩ : ∃ m, n = m + 1 := ⟨n - 1, by simp at hn; omega⟩
    rw [moreItems]
    apply Accepts.not_eat (fixed_mark (by decide)) (by simpa [mark] using hne)
    exact Accepts.eat (fixed_mark hclosing) (accepts_pure rfl)
  | cons x xs ih =>
    obtain ⟨m, rfl⟩ : ∃ m, n = m + 1 := ⟨n - 1, by simp at hn; omega⟩
    rw [moreItems, List.flatMap_cons, List.append_assoc, List.cons_append]
    refine Accepts.eat (fixed_mark (by decide)) (Accepts.bind (hitem x (List.mem_cons_self ..) _ ?_) ?_)
    · cases xs with
      | nil => exact Or.inr rfl
      | cons y ys => exact Or.inl rfl
    · intro x' hx'
      have hlater := ih (fun y hy => hitem y (List.mem_cons_of_mem _ hy)) (n := m) (by simp at hn; omega)
      exact hlater.bind_nil fun xs' hxs' => accepts_pure (by simp [hx', hxs'])

theorem accepts_commaSeparated (hclosing : closing ∈ marks) (hne : closing ≠ ",")
    (hitem : ∀ x ∈ xs, ∀ later, later.head? = some (mark ",") ∨ later.head? = some (mark closing) →
      Accepts item (symbols x) later (outline · = outline x))
    (hstart : ∀ x ∈ xs, ∀ later, (symbols x ++ later).head? ≠ some (mark closing)) {n : Nat} (hn : xs.length ≤ n) :
    Accepts (commaSeparated item closing n) (commas (xs.map symbols) ++ [mark closing]) rest
      (·.map outline = xs.map outline) := by
  unfold commaSeparated
  cases xs with
  | nil => exact Accepts.eat (fixed_mark hclosing) (accepts_pure rfl)
  | cons x xs =>
    rw [List.map_cons, commas, List.flatMap_map, List.append_assoc]
    refine Accepts.not_eat (fixed_mark hclosing) ?_ (Accepts.bind (hitem x (List.mem_cons_self ..) _ ?_) ?_)
    · rw [List.append_assoc]
      exact hstart x (List.mem_cons_self ..) _
    · cases xs with
      | nil => exact Or.inr rfl
      | cons y ys => exact Or.inl rfl
    · intro x' hx'
      have hlater : Accepts (moreItems item closing n) (xs.flatMap (mark "," :: symbols ·) ++ [mark closing]) rest
          (·.map outline = xs.map outline) :=
        accepts_moreItems hclosing hne (fun y hy => hitem y (List.mem_cons_of_mem _ hy)) (by simp at hn; omega)
      exact hlater.bind_nil fun xs' hxs' => accepts_pure (by simp [hx', hxs'])

/-- A loop reads items as long as `more` tells it to; `follows` is what is known of the symbols after an item. -/
theorem accepts_many {more : ReaderState → Bool} (follows : List Symbol → Prop)
    (hitem : ∀ x ∈ xs, ∀ later, follows later → Accepts item (symbols x) later (outline · = outline x))
    (hrest : follows rest) (hfollows : ∀ x ∈ xs, ∀ later, follows (symbols x ++ later))
    (hmore : ∀ x ∈ xs, ∀ s : ReaderState, s.Readable → ∀ later, s.symbols = symbols x ++ later → more s = true)
    (hstop : ∀ s : ReaderState, s.Readable → s.symbols = rest → more s = false) {n : Nat} (hn : xs.length ≤ n) :
    Accepts (many more item n) (xs.flatMap symbols) rest (·.map outline = xs.map outline) := by
  induction xs generalizing n with
  | nil =>
    cases n with
    | zero => exact accepts_pure rfl
    | succ n =>
      apply Accepts.get_bind
      intro s hs hsymbols
      rw [hstop s hs hsymbols]
      exact accepts_pure rfl
  | cons x xs ih =>
    obtain ⟨m, rfl⟩ : ∃ m, n = m + 1 := ⟨n - 1, by simp at hn; omega⟩
    rw [List.flatMap_cons, many]
    apply Accepts.get_bind
    intro s hs hsymbols
    rw [hmore x (List.mem_cons_self ..) s hs _ (by rw [hsymbols, List.append_assoc]), if_pos rfl]
    -- What follows this item is the next item or the rest, and both are allowed to.
    have hnext : follows (xs.flatMap symbols ++ rest) := by
      cases xs with
      | nil => exact hrest
      | cons y ys =>
        rw [List.flatMap_cons, List.append_assoc]
        exact hfollows y (List.mem_cons_of_mem _ (List.mem_cons_self ..)) _
    apply Accepts.bind (hitem x (List.mem_cons_self ..) _ hnext)
    intro x' hx'
    have hlater := ih (fun y hy => hitem y (List.mem_cons_of_mem _ hy))
      (fun y hy => hfollows y (List.mem_cons_of_mem _ hy)) (fun y hy => hmore y (List.mem_cons_of_mem _ hy))
      (n := m) (by simp at hn; omega)
    exact hlater.bind_nil fun xs' hxs' => accepts_pure (by simp [hx', hxs'])

end Sequences

end Reader

end BlockLang
