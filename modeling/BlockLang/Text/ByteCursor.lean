import BlockLang.Text.Cursor

/-!
# Cursors that count bytes

A cursor that keeps of what it has consumed only how many bytes it was: to move past a character, it cuts the bytes of
that character off the text and adds their number to its offset.  A text can be cut only between two characters, so a
move has no result where the count and the text disagree.
-/

namespace BlockLang

/-! ## §1 Cuts -/

/-- What stands behind the first `n` bytes of a text; none if they end within a character or the text has fewer. -/
def dropBytes? (text : String) (n : Nat) : Option String :=
  (text.pos? ⟨n⟩).map fun p => (text.sliceFrom p).copy

theorem pos?_eq_some_iff {text : String} {n : String.Pos.Raw} {p : text.Pos} :
    text.pos? n = some p ↔ p.offset = n := by
  rw [String.pos?, Option.map_eq_some_iff]
  constructor
  · rintro ⟨q, hq, rfl⟩
    rw [String.Slice.pos?] at hq
    split at hq
    · cases hq
      rfl
    · cases hq
  · rintro rfl
    have hvalid : p.offset.isValidForSlice text.toSlice = true :=
      String.Pos.Raw.isValidForSlice_eq_true_iff.mpr p.toSlice.isValidForSlice
    exact ⟨p.toSlice, dif_pos hvalid, rfl⟩

/-- A text can be cut where it is composed of two texts, and nowhere else. -/
theorem dropBytes?_eq_some_iff {text rest : String} {n : Nat} :
    dropBytes? text n = some rest ↔ ∃ front, text = front ++ rest ∧ front.utf8ByteSize = n := by
  rw [dropBytes?, Option.map_eq_some_iff]
  constructor
  · rintro ⟨p, hp, hcopy⟩
    obtain ⟨front, hsplits⟩ := String.copy_sliceFrom_eq_iff_exists_splits.mp hcopy
    have hoffset : front.rawEndPos = ⟨n⟩ := hsplits.offset_eq_rawEndPos.symm.trans (pos?_eq_some_iff.mp hp)
    exact ⟨front, hsplits.eq_append, congrArg String.Pos.Raw.byteIdx hoffset⟩
  · rintro ⟨front, rfl, rfl⟩
    have hvalid : String.Pos.Raw.IsValid (front ++ rest) front.rawEndPos :=
      String.Pos.Raw.isValid_iff_exists_append.mpr ⟨front, rest, rfl, rfl⟩
    have hsplits : (String.Pos.mk front.rawEndPos hvalid).Splits front rest := ⟨rfl, rfl⟩
    exact ⟨_, pos?_eq_some_iff.mpr rfl, hsplits.copy_sliceFrom_eq⟩

/-! ## §2 The cursor -/

/-- A position in a text whose first character stands at byte `start` of the whole source. -/
structure ByteCursor where
  /-- The byte offset of the text in the whole source. -/
  start : Nat
  /-- The byte offset of the next character in the whole source. -/
  offset : Nat
  /-- The text not yet consumed. -/
  rest : String
deriving DecidableEq, Repr, Inhabited

namespace ByteCursor

/-- A cursor before the first character of `text`. -/
def ofText (text : String) (start : Nat) : ByteCursor :=
  ⟨start, start, text⟩

/-- How many bytes have been consumed. -/
def consumedBytes (c : ByteCursor) : Nat :=
  c.offset - c.start

/-- Whether every character has been consumed. -/
def isEmpty (c : ByteCursor) : Bool :=
  c.rest.isEmpty

/-- Whether the next characters are of the given classes, in order. -/
def peek (c : ByteCursor) (classes : List CharClass) : Bool :=
  Cursor.matchesAll classes c.rest.toList

/-- The cursor behind the next character, or at the end. -/
def next? (c : ByteCursor) : Option ByteCursor :=
  match c.rest.toList with
  | [] => some c
  | x :: _ => (dropBytes? c.rest x.utf8Size).map fun rest => { c with rest, offset := c.offset + x.utf8Size }

/-- The cursor `n` characters further on, or at the end. -/
def advance? : Nat → ByteCursor → Option ByteCursor
  | 0, c => some c
  | n + 1, c => c.next?.bind (advance? n)

/-- Consumes the next characters if they are of the given classes, in order; tells whether they were. -/
def eat? (c : ByteCursor) (classes : List CharClass) : Option (Bool × ByteCursor) :=
  if c.peek classes then (advance? classes.length c).map fun d => (true, d) else some (false, c)

end ByteCursor

end BlockLang
