import BlockLang.Text.ByteCursor

/-!
# Faithful cursors

One cursor keeps the characters that it has consumed; the other cuts their bytes off the text and counts them.  Whatever
calls are made, both answer the same, no cut goes through a character, and what they tell about the text is true.

## Main definitions

- `CursorCall`: a test of the next characters, without or with consuming them.
- `ByteCursor.Matches`: the two cursors stand at the same place.
- `Cursor.Observation.Faithful`: what is told about a text is true when some characters of it have been consumed.
- `ByteCursor.Responds`: what a call answers, and how far it moves.

## Main statement

- `cursors_faithful`: all of this holds after any calls, for any text and start.
-/

namespace BlockLang

/-- A test of the next characters. -/
inductive CursorCall where
  /-- Tests them only. -/
  | peek (classes : List CharClass)
  /-- Consumes them if the test succeeds. -/
  | eat (classes : List CharClass)

/-! ## §1 The cursor that keeps what it has consumed -/

namespace Cursor

/-- A text matches as many classes as it has characters for, each in its place. -/
theorem matchesAll_iff {classes : List CharClass} {text : List Char} :
    matchesAll classes text = true ↔ classes.length ≤ text.length ∧
      ∀ i (hclass : i < classes.length) (hchar : i < text.length), classes[i] text[i] = true := by
  induction classes generalizing text with
  | nil => simp [matchesAll]
  | cons p classes ih =>
    cases text with
    | nil => simp [matchesAll]
    | cons x text =>
      rw [matchesAll, Bool.and_eq_true, ih]
      constructor
      · rintro ⟨hx, hle, hmore⟩
        refine ⟨Nat.succ_le_succ hle, fun i hclass hchar => ?_⟩
        cases i with
        | zero => exact hx
        | succ i => exact hmore i (Nat.lt_of_succ_lt_succ hclass) (Nat.lt_of_succ_lt_succ hchar)
      · rintro ⟨hle, hall⟩
        exact ⟨hall 0 (Nat.zero_lt_succ _) (Nat.zero_lt_succ _), Nat.le_of_succ_le_succ hle, fun i hclass hchar =>
          hall (i + 1) (Nat.succ_lt_succ hclass) (Nat.succ_lt_succ hchar)⟩

theorem byteLength_cons (x : Char) (text : List Char) : byteLength (x :: text) = x.utf8Size + byteLength text := by
  rw [byteLength, List.map_cons, List.sum_cons, byteLength]

theorem byteLength_eq (text : List Char) : byteLength text = (String.ofList text).utf8ByteSize := by
  induction text with
  | nil => rfl
  | cons x text ih =>
    rw [byteLength_cons, ih, String.ofList_cons, String.utf8ByteSize_append, String.utf8ByteSize_singleton]

theorem byteLength_reverse (text : List Char) : byteLength text.reverse = byteLength text := by
  rw [byteLength, List.map_reverse, List.sum_reverse]
  rfl

theorem consumedBytes_eq (c : Cursor) : c.consumedBytes = (String.ofList c.consumed).utf8ByteSize := by
  rw [← byteLength_eq, consumed, byteLength_reverse]
  rfl

theorem advance_advance (c : Cursor) (m n : Nat) : (c.advance m).advance n = c.advance (m + n) := by
  simp [advance, List.take_add]

/-- Answers a call. -/
def call (c : Cursor) : CursorCall → Bool × Cursor
  | .peek classes => (c.peek classes, c)
  | .eat classes => c.eat classes

/-- The cursor after some calls. -/
def after : List CursorCall → Cursor → Cursor
  | [], c => c
  | x :: calls, c => after calls (c.call x).2

theorem call_eq_advance (c : Cursor) (x : CursorCall) : ∃ n, (c.call x).2 = c.advance n := by
  cases x with
  | peek classes => exact ⟨0, rfl⟩
  | eat classes =>
    cases h : c.peek classes with
    | false => exact ⟨0, congrArg Prod.snd (eat_of_not_peek h)⟩
    | true => exact ⟨classes.length, congrArg Prod.snd (eat_of_peek h)⟩

/-- Calls do nothing to a cursor but move it on. -/
theorem after_eq_advance (c : Cursor) (calls : List CursorCall) : ∃ n, after calls c = c.advance n := by
  induction calls generalizing c with
  | nil => exact ⟨0, rfl⟩
  | cons x calls ih =>
    obtain ⟨m, hm⟩ := c.call_eq_advance x
    obtain ⟨n, hn⟩ := ih (c.call x).2
    exact ⟨m + n, by rw [after, hn, hm, advance_advance]⟩

end Cursor

/-! ## §2 The cursor that counts bytes -/

namespace ByteCursor

/-- Answers a call. -/
def call? (b : ByteCursor) : CursorCall → Option (Bool × ByteCursor)
  | .peek classes => some (b.peek classes, b)
  | .eat classes => b.eat? classes

/-- The cursor after some calls. -/
def after? : List CursorCall → ByteCursor → Option ByteCursor
  | [], b => some b
  | x :: calls, b => (b.call? x).bind fun answered => after? calls answered.2

/-- The two cursors stand at the same place of the same text. -/
structure Matches (b : ByteCursor) (c : Cursor) : Prop where
  start_eq : b.start = c.start
  offset_eq : b.offset = c.offset
  rest_eq : b.rest = String.ofList c.rest

namespace Matches

variable {b : ByteCursor} {c : Cursor}

theorem ofText (text : String) (start : Nat) :
    (ByteCursor.ofText text start).Matches (.ofText text.toList start) :=
  ⟨rfl, rfl, String.ofList_toList.symm⟩

theorem toList_rest (h : b.Matches c) : b.rest.toList = c.rest := by
  rw [h.rest_eq, String.toList_ofList]

theorem peek_eq (h : b.Matches c) (classes : List CharClass) : b.peek classes = c.peek classes := by
  rw [ByteCursor.peek, h.toList_rest, Cursor.peek]

/-- The bytes of the next character can be cut off, and they are as many as are counted. -/
theorem next (h : b.Matches c) : ∃ d, b.next? = some d ∧ d.Matches (c.advance 1) := by
  obtain ⟨start, behind, rest⟩ := c
  have hrest : b.rest.toList = rest := h.toList_rest
  cases rest with
  | nil => exact ⟨b, by rw [next?, hrest], h⟩
  | cons x rest =>
    have hsplit : b.rest = String.singleton x ++ String.ofList rest := h.rest_eq.trans String.ofList_cons
    have hcut : dropBytes? b.rest x.utf8Size = some (String.ofList rest) :=
      dropBytes?_eq_some_iff.mpr ⟨String.singleton x, hsplit, String.utf8ByteSize_singleton⟩
    -- One more character behind the cursor is as many more bytes behind it.
    have hoffset : b.offset + x.utf8Size = (Cursor.mk start (x :: behind) rest).offset := by
      rw [h.offset_eq, Cursor.offset, Cursor.offset, Cursor.consumedBytes, Cursor.consumedBytes, Cursor.byteLength_cons,
        Nat.add_assoc, Nat.add_comm x.utf8Size]
    refine ⟨{ b with rest := String.ofList rest, offset := b.offset + x.utf8Size }, ?_, h.start_eq, hoffset, rfl⟩
    rw [next?, hrest]
    dsimp only
    rw [hcut, Option.map_some]

theorem advance (h : b.Matches c) (n : Nat) : ∃ d, advance? n b = some d ∧ d.Matches (c.advance n) := by
  induction n generalizing b c with
  | zero => exact ⟨b, rfl, h⟩
  | succ n ih =>
    obtain ⟨m, hnext, hm⟩ := h.next
    obtain ⟨d, hadvance, hd⟩ := ih hm
    rw [Cursor.advance_advance, Nat.add_comm] at hd
    exact ⟨d, by rw [advance?, hnext, Option.bind_some, hadvance], hd⟩

theorem eat (h : b.Matches c) (classes : List CharClass) :
    ∃ d, b.eat? classes = some ((c.eat classes).1, d) ∧ d.Matches (c.eat classes).2 := by
  cases hpeek : c.peek classes with
  | false =>
    rw [eat?, h.peek_eq, hpeek, Cursor.eat_of_not_peek hpeek]
    exact ⟨b, rfl, h⟩
  | true =>
    obtain ⟨d, hadvance, hd⟩ := h.advance classes.length
    rw [eat?, h.peek_eq, hpeek, Cursor.eat_of_peek hpeek, hadvance]
    exact ⟨d, rfl, hd⟩

/-- A call gets the same answer from both and leaves them at the same place. -/
theorem call (h : b.Matches c) (x : CursorCall) :
    ∃ d, b.call? x = some ((c.call x).1, d) ∧ d.Matches (c.call x).2 := by
  cases x with
  | peek classes => exact ⟨b, by rw [call?, h.peek_eq]; rfl, h⟩
  | eat classes => exact h.eat classes

/-- So do any calls, one after the other. -/
theorem after (h : b.Matches c) (calls : List CursorCall) :
    ∃ d, after? calls b = some d ∧ d.Matches (c.after calls) := by
  induction calls generalizing b c with
  | nil => exact ⟨b, rfl, h⟩
  | cons x calls ih =>
    obtain ⟨m, hcall, hm⟩ := h.call x
    obtain ⟨d, hafter, hd⟩ := ih hm
    exact ⟨d, by rw [after?, hcall, Option.bind_some, hafter], hd⟩

end Matches

end ByteCursor

/-! ## §3 What is told -/

/-- What a cursor tells about a text. -/
structure Cursor.Observation where
  /-- The characters not yet consumed. -/
  rest : List Char
  /-- How many bytes have been consumed. -/
  consumedBytes : Nat
  /-- The byte offset of the next character in the whole source. -/
  offset : Nat
  /-- Whether every character has been consumed. -/
  isEmpty : Bool
  /-- Whether the next characters are of some classes, in order. -/
  peek : List CharClass → Bool

def Cursor.observed (c : Cursor) : Cursor.Observation :=
  ⟨c.rest, c.consumedBytes, c.offset, c.isEmpty, c.peek⟩

def ByteCursor.observed (b : ByteCursor) : Cursor.Observation :=
  ⟨b.rest.toList, b.consumedBytes, b.offset, b.isEmpty, b.peek⟩

/-- What is told of a text that begins at byte `start` is true when `consumed` has been consumed of it. -/
structure Cursor.Observation.Faithful (o : Cursor.Observation) (text : String) (start : Nat)
    (consumed : List Char) : Prop where
  /-- The consumed characters followed by the rest are the text. -/
  consumed_append_rest : consumed ++ o.rest = text.toList
  /-- The bytes are those of the consumed characters. -/
  consumedBytes_eq : o.consumedBytes = (String.ofList consumed).utf8ByteSize
  offset_eq : o.offset = start + o.consumedBytes
  isEmpty_iff : o.isEmpty = true ↔ consumed = text.toList
  /-- There is a character for each class, and each is of its class. -/
  peek_iff (classes : List CharClass) : o.peek classes = true ↔ classes.length ≤ o.rest.length ∧
    ∀ i (hclass : i < classes.length) (hchar : i < o.rest.length), classes[i] o.rest[i] = true
  /-- Skipping as many bytes of the text skips the consumed characters and no others. -/
  dropBytes?_eq : dropBytes? text o.consumedBytes = some (String.ofList o.rest)

/-- What calls with some classes do to a cursor, beside another one that keeps what has been consumed. -/
structure ByteCursor.Responds (b : ByteCursor) (c : Cursor) (classes : List CharClass) : Prop where
  /-- A test alone changes nothing. -/
  peek : b.call? (.peek classes) = some (b.peek classes, b) ∧ c.call (.peek classes) = (b.peek classes, c)
  /-- Nothing is consumed if the test fails. -/
  eat_of_not_peek : b.peek classes = false →
    b.call? (.eat classes) = some (false, b) ∧ c.call (.eat classes) = (false, c)
  /-- One character for each class is consumed if it succeeds. -/
  eat_of_peek : b.peek classes = true → ∃ d part, part.length = classes.length ∧
    b.call? (.eat classes) = some (true, d) ∧ b.rest = String.ofList part ++ d.rest ∧
      (c.call (.eat classes)).1 = true ∧ (c.call (.eat classes)).2.consumed = c.consumed ++ part

/-- A cursor that stands within a text tells the truth about it. -/
theorem Cursor.faithful {c : Cursor} {text : String} (htext : c.consumed ++ c.rest = text.toList) :
    c.observed.Faithful text c.start c.consumed where
  consumed_append_rest := htext
  consumedBytes_eq := c.consumedBytes_eq
  offset_eq := rfl
  isEmpty_iff := by
    rw [← htext, List.self_eq_append_right]
    exact List.isEmpty_iff
  peek_iff _ := Cursor.matchesAll_iff
  dropBytes?_eq := by
    have hparts : text = String.ofList c.consumed ++ String.ofList c.rest := by
      rw [← String.ofList_append, htext, String.ofList_toList]
    exact dropBytes?_eq_some_iff.mpr ⟨_, hparts, c.consumedBytes_eq.symm⟩

namespace ByteCursor.Matches

variable {b : ByteCursor} {c : Cursor}

theorem observed_eq (h : b.Matches c) : b.observed = c.observed := by
  have hbytes : b.consumedBytes = c.consumedBytes := by
    rw [ByteCursor.consumedBytes, h.offset_eq, h.start_eq, Cursor.offset, Nat.add_sub_cancel_left]
  have hempty : b.isEmpty = c.isEmpty := by
    rw [ByteCursor.isEmpty, Cursor.isEmpty, h.rest_eq, Bool.eq_iff_iff, String.isEmpty_iff, List.isEmpty_iff]
    exact String.ofList_eq_empty_iff
  rw [ByteCursor.observed, Cursor.observed, h.toList_rest, hbytes, h.offset_eq, hempty, funext h.peek_eq]

theorem responds (h : b.Matches c) (classes : List CharClass) : b.Responds c classes where
  peek := ⟨rfl, by rw [h.peek_eq, Cursor.call]⟩
  eat_of_not_peek hpeek :=
    ⟨by rw [call?, eat?, hpeek]; rfl, Cursor.eat_of_not_peek (h.peek_eq classes ▸ hpeek)⟩
  eat_of_peek hpeek := by
    have hcursor : c.peek classes = true := h.peek_eq classes ▸ hpeek
    have heat : c.call (.eat classes) = (true, c.advance classes.length) := Cursor.eat_of_peek hcursor
    obtain ⟨d, hcall, hd⟩ := h.call (.eat classes)
    rw [heat] at hcall hd ⊢
    refine ⟨d, c.rest.take classes.length, ?_, hcall, ?_, rfl, c.consumed_advance _⟩
    · exact List.length_take_of_le (Cursor.matchesAll_iff.mp hcursor).1
    · rw [h.rest_eq, hd.rest_eq, ← String.ofList_append]
      exact congrArg String.ofList (List.take_append_drop ..).symm

end ByteCursor.Matches

/-- **Cursors are faithful.** After any calls, with any classes, on any text that begins at any byte of the source,
no cut has failed and both cursors tell the same: the consumed characters followed by the rest are the text, their
bytes are counted, and the offset is the start plus that count.  A test tells whether the next characters are of the
given classes, one for each, and changes nothing; consuming them answers the same, and moves past just these characters
if the test succeeds and past none if it fails. -/
theorem cursors_faithful (text : String) (start : Nat) (calls : List CursorCall) :
    ∃ b, ByteCursor.after? calls (.ofText text start) = some b ∧
      let c := (Cursor.ofText text.toList start).after calls
      b.observed = c.observed ∧ b.observed.Faithful text start c.consumed ∧ ∀ classes, b.Responds c classes := by
  obtain ⟨b, hafter, hb⟩ := (ByteCursor.Matches.ofText text start).after calls
  -- Wherever the calls have led, it is some number of characters into the text.
  obtain ⟨n, hn⟩ := (Cursor.ofText text.toList start).after_eq_advance calls
  refine ⟨b, hafter, hb.observed_eq, ?_, hb.responds⟩
  rw [hb.observed_eq, hn]
  exact Cursor.faithful (Cursor.consumed_append_rest_advance _ n)

/-- Two characters of two and three bytes are consumed, and tests that fail or reach past the end consume nothing. -/
theorem cursors_faithful_multibyte :
    ∃ b, ByteCursor.after? [.eat [.any, .any], .eat [.any, .any], .eat [.doubleQuote]] (.ofText "\u00e9\u2192x" 7) =
        some b ∧
      b.observed.Faithful "\u00e9\u2192x" 7 ['\u00e9', '\u2192'] ∧ b.offset = 12 ∧ b.rest = "x" := by
  obtain ⟨b, hafter, -, hfaithful, -⟩ :=
    cursors_faithful "\u00e9\u2192x" 7 [.eat [.any, .any], .eat [.any, .any], .eat [.doubleQuote]]
  have hb : b = ⟨7, 12, "x"⟩ := Option.some.inj (hafter.symm.trans (by decide +kernel))
  exact ⟨b, hafter, hfaithful, congrArg ByteCursor.offset hb, congrArg ByteCursor.rest hb⟩

end BlockLang
