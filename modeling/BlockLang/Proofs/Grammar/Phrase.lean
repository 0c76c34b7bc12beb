import BlockLang.Proofs.Grammar.Reading

/-!
# Phrases and sequences of them

A kind of phrase is a type of trees with its written form, its ids, and what is said of its shape and its offsets.
`Phrase.Read` says that a phrase has been read between two places, and `Phrase.ReadBy` that this is what a reader does
whenever it succeeds.  A reader of sequences reads phrases in a row, or with commas between them, if the reader of its
items reads phrases.
-/

namespace BlockLang

open BlockLang.Symbol

/-! ## §1 Kinds of phrases -/

/-- A kind of phrase: how it is written, its ids, and what is said of its shape and of its offsets. -/
structure Phrase (α : Type) where
  symbols : α → List Symbol
  ids : α → List Nat
  WellFormed : α → Prop
  Anchored : α → List Token → Prop

namespace Phrase

variable {α : Type}

/-- Between two places a phrase has been read. -/
structure Read (P : Phrase α) (x : α) (s t : ReaderState) : Prop where
  passes : s.Passes (P.symbols x) (P.ids x) t
  wellFormed : s.Proper → P.WellFormed x
  anchored : P.Anchored x s.rest

/-- Whatever the reader yields it has read. -/
def ReadBy (P : Phrase α) (r : Reader α) : Prop :=
  ∀ s x t, r s = .ok x t → P.Read x s t

/-- Expressions whose outermost operator is of some level or binds tighter. -/
def tight (level : Nat) : Phrase Expr :=
  ⟨Expr.symbols, Expr.ids, fun e => e.WellFormed ∧ level ≤ e.level, Expr.Anchored⟩

/-- Expressions. -/
def expression : Phrase Expr := ⟨Expr.symbols, Expr.ids, Expr.WellFormed, Expr.Anchored⟩

/-- Initial values, if there are any. -/
def initialValue : Phrase (Option Expr) :=
  ⟨valueSymbols, Expr.optionIds, fun value => ∀ e ∈ value, e.WellFormed, Expr.OptionAnchored⟩

/-- Statements. -/
def statement : Phrase Statement := ⟨Statement.symbols, Statement.ids, Statement.WellFormed, Statement.Anchored⟩

/-- Arms of a switch that have a value. -/
def valueCase : Phrase Case :=
  ⟨Case.symbols, Case.ids, fun arm => arm.WellFormed ∧ arm.value ≠ none, Case.Anchored⟩

/-- Parameters. -/
def parameter : Phrase Parameter :=
  ⟨Parameter.symbols, fun p => [p.node.id], fun p => IsName p.name ∧ IsName p.type, Parameter.Anchored⟩

/-- Functions. -/
def function : Phrase Function := ⟨Function.symbols, Function.ids, Function.WellFormed, Function.Anchored⟩

/-- Globals. -/
def global : Phrase Global := ⟨Global.symbols, Global.ids, Global.WellFormed, Global.Anchored⟩

/-- Globals without their final semicolon. -/
def openGlobal : Phrase Global :=
  ⟨fun g => ident g.keyword :: ident g.name :: typeSymbols g.type ++ valueSymbols g.value, Global.ids,
    Global.WellFormed, Global.Anchored⟩

/-- Lists written element by element. -/
def writtenList : Phrase Expr :=
  ⟨Expr.symbols, Expr.ids, fun e => match e with
    | .list _ elements => elements ≠ [] ∧ Expr.AllWellFormed elements
    | _ => False, Expr.Anchored⟩

/-- Programs. -/
def program : Phrase Program := ⟨Program.symbols, Program.ids, Program.WellFormed, Program.Anchored⟩

/-- Phrases in a row. -/
def row (P : Phrase α) : Phrase (List α) :=
  ⟨List.flatMap P.symbols, List.flatMap P.ids, fun xs => ∀ x ∈ xs, P.WellFormed x,
    InRowAnchored P.symbols P.Anchored⟩

/-- Phrases with commas between them. -/
def commaList (P : Phrase α) : Phrase (List α) :=
  ⟨fun xs => commas (xs.map P.symbols), List.flatMap P.ids, fun xs => ∀ x ∈ xs, P.WellFormed x,
    CommasAnchored P.symbols P.Anchored⟩

/-- Phrases with a comma before them. -/
def afterComma (P : Phrase α) : Phrase α :=
  ⟨(mark "," :: P.symbols ·), P.ids, P.WellFormed, fun x ts => P.Anchored x (ts.drop 1)⟩

end Phrase

namespace Expr

theorem Anchored.startsAt {e : Expr} {ts : List Token} (h : e.Anchored ts) : StartsAt e.offset ts := by
  cases e with
  | literal n value => exact h
  | «variable» n x => exact h
  | group n inner => exact h.1
  | binary n op left right => exact h.1
  | element n x index => exact h.1
  | call n x arguments => exact h.1
  | list n elements => exact h.1

end Expr

/-! ## §2 Putting phrases together -/

namespace Phrase

variable {α : Type} {P : Phrase α} {x : α} {xs : List α} {s t u : ReaderState}

theorem Read.afterComma (hcomma : s.peek "," = true) (hx : P.Read x s.advance t) : P.afterComma.Read x s t := by
  have hmark := ReaderState.passes_mark hcomma (by decide)
  refine ⟨hmark.trans hx.passes, fun hs => hx.wellFormed (hmark.proper hs), ?_⟩
  have hrest : s.rest.drop 1 = s.advance.rest := hmark.drop_eq
  change P.Anchored x (s.rest.drop 1)
  rw [hrest]
  exact hx.anchored

theorem Read.nil_row : P.row.Read [] s s :=
  ⟨ReaderState.Passes.refl s, fun _ => by simp [row], trivial⟩

theorem Read.cons_row (hx : P.Read x s t) (hxs : P.row.Read xs t u) : P.row.Read (x :: xs) s u := by
  refine ⟨by simpa [row] using hx.passes.trans hxs.passes, fun hs y hy => ?_, hx.anchored, ?_⟩
  · rcases List.mem_cons.mp hy with rfl | hy
    · exact hx.wellFormed hs
    · exact hxs.wellFormed (hx.passes.proper hs) y hy
  · rw [hx.passes.drop_eq]
    exact hxs.anchored

theorem inRowAnchored_afterComma (xs : List α) (ts : List Token) :
    InRowAnchored P.afterComma.symbols P.afterComma.Anchored xs ts ↔
      CommasAnchored P.symbols P.Anchored xs (ts.drop 1) := by
  induction xs generalizing ts with
  | nil => simp [InRowAnchored, CommasAnchored]
  | cons x rest ih =>
    rw [InRowAnchored, CommasAnchored, ih, List.drop_drop, List.drop_drop]
    have hlength : (P.afterComma.symbols x).length + 1 = 1 + ((P.symbols x).length + 1) := by
      simp [Phrase.afterComma, Nat.add_comm]
    rw [hlength]
    rfl

/-- A first item and further ones after commas are a list with commas. -/
theorem Read.commaList (hx : P.Read x s t) (hxs : P.afterComma.row.Read xs t u) :
    P.commaList.Read (x :: xs) s u := by
  refine ⟨by simpa [Phrase.commaList, commas, row, Phrase.afterComma, List.flatMap_map]
    using hx.passes.trans hxs.passes, fun hs y hy => ?_, hx.anchored, ?_⟩
  · rcases List.mem_cons.mp hy with rfl | hy
    · exact hx.wellFormed hs
    · exact hxs.wellFormed (hx.passes.proper hs) y hy
  · rw [← List.drop_drop, hx.passes.drop_eq, ← inRowAnchored_afterComma]
    exact hxs.anchored

theorem Read.nil_commaList : P.commaList.Read [] s s :=
  ⟨ReaderState.Passes.refl s, fun _ => by simp [Phrase.commaList], trivial⟩

end Phrase

/-! ## §3 Readers of sequences -/

namespace Reader

open Phrase Stateful

variable {α : Type} {P : Phrase α} {item : Reader α} {closing : String} {n : Nat} {xs : List α} {s t : ReaderState}

theorem read_of_moreItems (hitem : P.ReadBy item) (hclosing : closing ∈ marks)
    (h : moreItems item closing n s = .ok xs t) :
    ∃ m, P.afterComma.row.Read xs s m ∧ m.Passes [mark closing] [] t := by
  induction n generalizing s xs with
  | zero => simp [moreItems] at h
  | succ n ih =>
    rw [moreItems, eat_choice] at h
    split at h
    · rename_i hcomma
      simp only [bind_eq_ok, pure_apply, EStateM.Result.ok.injEq] at h
      obtain ⟨x, m, hx, xs', t', hxs, rfl, rfl⟩ := h
      obtain ⟨m', hlater, hclose⟩ := ih hxs
      exact ⟨m', Read.cons_row (Read.afterComma hcomma (hitem _ _ _ hx)) hlater, hclose⟩
    · rw [eat_choice] at h
      split at h
      · rename_i hclose
        simp only [pure_apply, EStateM.Result.ok.injEq] at h
        obtain ⟨rfl, rfl⟩ := h
        exact ⟨s, Read.nil_row, ReaderState.passes_mark hclose hclosing⟩
      · simp at h

theorem read_of_commaSeparated (hitem : P.ReadBy item) (hclosing : closing ∈ marks)
    (h : commaSeparated item closing n s = .ok xs t) :
    ∃ m, P.commaList.Read xs s m ∧ m.Passes [mark closing] [] t := by
  rw [commaSeparated, eat_choice] at h
  split at h
  · rename_i hclose
    simp only [pure_apply, EStateM.Result.ok.injEq] at h
    obtain ⟨rfl, rfl⟩ := h
    exact ⟨s, Read.nil_commaList, ReaderState.passes_mark hclose hclosing⟩
  · simp only [bind_eq_ok, pure_apply, EStateM.Result.ok.injEq] at h
    obtain ⟨x, m, hx, xs', t', hxs, rfl, rfl⟩ := h
    obtain ⟨m', hlater, hclose⟩ := read_of_moreItems hitem hclosing hxs
    exact ⟨m', Read.commaList (hitem _ _ _ hx) hlater, hclose⟩

/-- A loop reads a row, provided that each of its items is read where the loop goes on. -/
theorem read_of_many {more : ReaderState → Bool}
    (hitem : ∀ s x t, more s = true → item s = .ok x t → P.Read x s t) (h : many more item n s = .ok xs t) :
    P.row.Read xs s t := by
  induction n generalizing s xs with
  | zero =>
    simp only [many, pure_apply, EStateM.Result.ok.injEq] at h
    obtain ⟨rfl, rfl⟩ := h
    exact Read.nil_row
  | succ n ih =>
    rw [many, get_bind] at h
    split at h
    · rename_i hmore
      simp only [bind_eq_ok, pure_apply, EStateM.Result.ok.injEq] at h
      obtain ⟨x, m, hx, xs', t', hxs, rfl, rfl⟩ := h
      exact Read.cons_row (hitem _ _ _ hmore hx) (ih hxs)
    · simp only [pure_apply, EStateM.Result.ok.injEq] at h
      obtain ⟨rfl, rfl⟩ := h
      exact Read.nil_row

end Reader

end BlockLang
