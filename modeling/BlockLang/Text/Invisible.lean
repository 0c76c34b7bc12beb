import BlockLang.Text.Extending
import BlockLang.Text.Unassigned

/-!
# Invisible characters

The characters that do not show by themselves, so that a message names them by number.  The blank is not among them.
-/

namespace BlockLang

namespace CharRanges

/-- Control and format characters and separators, apart from the blank, and the letters that are to be ignored by
default, which are fillers without a shape. -/
def formatting : CharRanges :=
  [(0x0, 0x1f), (0x7f, 0xa0), (0xad, 0xad), (0x600, 0x605), (0x61c, 0x61c), (0x6dd, 0x6dd), (0x70f, 0x70f),
    (0x890, 0x891), (0x8e2, 0x8e2), (0x115f, 0x1160), (0x1680, 0x1680), (0x180e, 0x180e), (0x2000, 0x200f),
    (0x2028, 0x202f), (0x205f, 0x2064), (0x2066, 0x206f), (0x3000, 0x3000), (0x3164, 0x3164), (0xfeff, 0xfeff),
    (0xffa0, 0xffa0), (0xfff9, 0xfffb), (0x110bd, 0x110bd), (0x110cd, 0x110cd), (0x13430, 0x1343f),
    (0x1bca0, 0x1bca3), (0x1d173, 0x1d17a), (0xe0001, 0xe0001), (0xe0020, 0xe007f)]

theorem ascending_formatting : formatting.ascending = true := by decide +kernel

theorem count_formatting : formatting.count = 257 := by decide +kernel

/-- The characters that do not show by themselves. -/
def invisible : CharRanges :=
  formatting ++ extending ++ unassigned

end CharRanges

/-- Whether a character does not show by itself. -/
def isInvisible (c : Char) : Bool :=
  CharRanges.invisible.contains c

/-- A character is invisible if it only formats text, extends the character before it, or is not assigned. -/
theorem isInvisible_eq (c : Char) :
    isInvisible c =
      (CharRanges.formatting.contains c || CharRanges.extending.contains c || CharRanges.unassigned.contains c) := by
  rw [isInvisible, CharRanges.invisible, CharRanges.contains_append, CharRanges.contains_append]

end BlockLang
