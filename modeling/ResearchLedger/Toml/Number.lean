import ResearchLedger.Quantity
import ResearchLedger.Text.Decimal
import ResearchLedger.Text.Hex
/-!
The numbers of TOML: integers, and fractional numbers, of which only the range matters here.
-/

namespace ResearchLedger.Toml

/-- The digits of a number in which single underscores may stand between digits. -/
def ungroup? (isDigit : Char → Bool) : List Char → Option (List Char)
  | [] => none
  | [c] => if isDigit c then some [c] else none
  | c :: '_' :: s => if isDigit c then (c :: ·) <$> ungroup? isDigit s else none
  | c :: s => if isDigit c then (c :: ·) <$> ungroup? isDigit s else none

/-- The digits of a decimal number without superfluous zeros in front. -/
def decimal? (s : List Char) : Option (List Char) :=
  match ungroup? Char.isDigit s with
  | some ('0' :: _ :: _) => none
  | digits => digits

/-- A leading sign, and what follows it. -/
def splitSign : List Char → Bool × List Char
  | '-' :: s => (true, s)
  | '+' :: s => (false, s)
  | s => (false, s)

/-- A number with a sign. -/
def signed (negative : Bool) (n : Nat) : Int := if negative then -n else n

/-- The number that digits of a base denote. -/
def ofDigits (base : Nat) (s : List Char) : Nat :=
  s.foldl (fun n c => base * n + (Hex.digitValue? c).getD 0) 0

/-- Whether a character is a digit of a base up to sixteen. -/
def isDigitOf (base : Nat) (c : Char) : Bool := (Hex.digitValue? c).any (· < base)

/-- Reads an integer: decimal with an optional sign, or in base 16, 8 or 2 after `0x`, `0o` or `0b`. -/
def integer? (s : List Char) : Option Int :=
  match s with
  | '0' :: 'x' :: s => (fun ds => (ofDigits 16 ds : Int)) <$> ungroup? (isDigitOf 16) s
  | '0' :: 'o' :: s => (fun ds => (ofDigits 8 ds : Int)) <$> ungroup? (isDigitOf 8) s
  | '0' :: 'b' :: s => (fun ds => (ofDigits 2 ds : Int)) <$> ungroup? (isDigitOf 2) s
  | s => (fun ds => signed (splitSign s).1 (Decimal.value ds)) <$> decimal? (splitSign s).2

/-- A fractional number: decimal digits, a power of ten by which they are multiplied, and a sign. -/
structure Fractional where
  negative : Bool
  digits : List Char
  exponent : Int

namespace Fractional

/-- Reads an exponent: digits with an optional sign. -/
def exponent? (s : List Char) : Option Int :=
  (fun ds => signed (splitSign s).1 (Decimal.value ds)) <$> ungroup? Char.isDigit (splitSign s).2

/-- Reads a number that has a fraction, an exponent or both. -/
def ofText? (s : List Char) : Option Fractional := do
  let (negative, s) := splitSign s
  let (mantissa, power) := s.span (fun c => c != 'e' && c != 'E')
  let (whole, fraction) := mantissa.span (· != '.')
  if fraction.isEmpty && power.isEmpty then none
  let whole ← decimal? whole
  let fraction ← if fraction.isEmpty then some [] else ungroup? Char.isDigit (fraction.drop 1)
  let exponent ← if power.isEmpty then some 0 else exponent? (power.drop 1)
  return { negative, digits := whole ++ fraction, exponent := exponent - fraction.length }

/-- The least number that is no longer rounded to a finite one of 64 bits: half a unit in the last of 53
places above the greatest finite number. -/
def leastInfinite : Nat := (Nat.pow 2 54 - 1) * Nat.pow 2 970

/-- Whether the size of a number is rounded to infinity. A number of `n` digits times `10 ^ e` is less than
`10 ^ (n + e)` and at least a tenth of that, so powers are only formed near the limit. -/
def isInfinite (x : Fractional) : Bool :=
  let digits := x.digits.dropWhile (· == '0')
  let size := digits.length + x.exponent
  if digits.isEmpty || size ≤ 308 then false
  else if 310 ≤ size then true
  else leastInfinite * Nat.pow 10 (-x.exponent).toNat
    ≤ Decimal.value digits * Nat.pow 10 x.exponent.toNat

/-- Whether a number is in range. Infinity below zero counts as a number, infinity above zero does not. -/
def isInRange (x : Fractional) : Bool := x.negative || !x.isInfinite

end Fractional

/-- Whether a text names infinity or the value that is no number. -/
def isNonFinite (s : List Char) : Bool :=
  let s := (splitSign s).2
  s == ['i', 'n', 'f'] || s == ['n', 'a', 'n']

end ResearchLedger.Toml
