import BlockLang.Decimal.Arithmetic

/-!
# Numerals

Reading the texts of integer and decimal numerals.  An integer numeral is an optional sign, a digit, and then
digits and underscores; underscores are ignored.  A decimal numeral is such a text with at most one point and
an optional exponent; every digit after the point counts for the scale, and the exponent lowers it.
-/

namespace BlockLang

namespace Numeral

/-! ## §1 Integers -/

/-- The value of one decimal digit. -/
def digitValue (c : Char) : Nat :=
  c.toNat - '0'.toNat

/-- Reads digits and underscores after the number `acc` has been read. -/
def readDigits (acc : Nat) : List Char → Option Nat
  | [] => some acc
  | c :: rest =>
    if c.isDigit then readDigits (acc * 10 + digitValue c) rest
    else if c = '_' then readDigits acc rest
    else none

/-- Reads a natural number: a digit, then digits and underscores. -/
def readNat? : List Char → Option Nat
  | c :: rest => if c.isDigit then readDigits (digitValue c) rest else none
  | [] => none

/-- Reads an integer: a natural number with at most one sign before it. -/
def readInt? : List Char → Option Int
  | '-' :: rest => (readNat? rest).map fun n => -(n : Int)
  | '+' :: rest => (readNat? rest).map Int.ofNat
  | text => (readNat? text).map Int.ofNat

/-! ## §2 Decimals -/

/-- An exponent is an integer without underscores. -/
def readExponent? (text : List Char) : Option Int :=
  if '_' ∈ text then none else readInt? text

/-- Whether a character separates a decimal's digits from its exponent. -/
def isExponentMark (c : Char) : Bool :=
  c = 'e' || c = 'E'

/-- Reads the part of a decimal before its exponent: the digits without the point, and how many of them stand
after it. -/
def readMantissa? (text : List Char) : Option Decimal :=
  let lead := text.takeWhile (· ≠ '.')
  let trail := (text.dropWhile (· ≠ '.')).drop 1
  (readInt? (lead ++ trail)).map fun digits => ⟨digits, (trail.filter (· ≠ '_')).length⟩

/-- Reads a decimal: a mantissa and an optional exponent.  An exponent that moves the scale out of the 64-bit
numbers is refused; without one the scale only counts characters of the text. -/
def readDecimal? (text : List Char) : Option Decimal := do
  let mantissa ← readMantissa? (text.takeWhile fun c => !isExponentMark c)
  match text.dropWhile fun c => !isExponentMark c with
  | [] => some mantissa
  | _ :: rest =>
    let exponent ← readExponent? rest
    let scale := mantissa.scale - exponent
    if Decimal.scaleFits scale then some ⟨mantissa.digits, scale⟩ else none

end Numeral

end BlockLang
