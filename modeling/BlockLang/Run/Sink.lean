/-!
# Output sinks

A sink takes what a run prints, as bytes.  It may be limited: then it takes exactly so many bytes and refuses all
others.
-/

namespace BlockLang

/-- What has been printed, and how much may be. -/
structure Sink where
  /-- The bytes taken so far. -/
  written : ByteArray
  /-- The number of bytes that the sink takes at most; without it there is no limit. -/
  limit : Option Nat

namespace Sink

/-- A sink that has taken nothing yet. -/
def withLimit (limit : Option Nat) : Sink := ⟨.empty, limit⟩

instance : Inhabited Sink := ⟨withLimit none⟩

/-- Why a sink refuses bytes. -/
def refusal : String := "sink full"

/-- How many bytes of the given number the sink still takes. -/
def room (s : Sink) (wanted : Nat) : Nat :=
  match s.limit with
  | none => wanted
  | some limit => min wanted (limit - s.written.size)

/-- Writes a text as far as there is room; tells whether all of it was taken. -/
def write (s : Sink) (text : String) : Bool × Sink :=
  let bytes := text.toUTF8
  let taken := s.room bytes.size
  (taken = bytes.size, { s with written := s.written ++ bytes.extract 0 taken })

/-! ## §1 Reading back -/

/-- The longest text that the bytes begin with, at most `n` bytes being left over, and a replacement character
for those. -/
def textDropping (bytes : ByteArray) : Nat → String
  | 0 => ""
  | n + 1 =>
    match String.fromUTF8? (bytes.extract 0 (bytes.size - 1)) with
    | some text => text ++ "\ufffd"
    | none => textDropping (bytes.extract 0 (bytes.size - 1)) n

/-- The text that bytes encode.  A character cut off at the end shows as the replacement character. -/
def textOf (bytes : ByteArray) : String :=
  match String.fromUTF8? bytes with
  | some text => text
  | none => textDropping bytes 4

/-- What has been printed after the first `start` bytes. -/
def textFrom (s : Sink) (start : Nat) : String :=
  textOf (s.written.extract start s.written.size)

/-- What has been printed. -/
def text (s : Sink) : String :=
  s.textFrom 0

end Sink

end BlockLang
