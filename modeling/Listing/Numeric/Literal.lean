import Listing.Numeric.Binary64
import Listing.Numeric.Digits

/-!
Decimal literals: sign, integer digits, fraction, exponent. A literal keeps what was written, so
that formats which differ in what they allow and in how they round can share one reader.
-/

set_option autoImplicit false

namespace Listing.Numeric

structure Literal where
  sign : Option Sign
  whole : List Char
  fraction : Option (List Char)
  exponent : Option Int
  deriving DecidableEq, Repr

namespace Literal

def splitDigits (s : List Char) : List Char × List Char :=
  (s.takeWhile Char.isDigit, s.dropWhile Char.isDigit)

def splitFraction : List Char → Option (List Char) × List Char
  | '.' :: rest => (some (splitDigits rest).1, (splitDigits rest).2)
  | s => (none, s)

def readExponent? : List Char → Option (Option Int)
  | [] => some none
  | c :: rest =>
    if c == 'e' || c == 'E' then
      let (sign, digits) := splitSign rest
      (natural? digits).map fun n => some (if sign = some .minus then -(n : Int) else n)
    else none

/-- Any of the four parts may be missing here; what a number needs is for each format to say. -/
def read? (s : List Char) : Option Literal :=
  let (sign, s) := splitSign s
  let (whole, s) := splitDigits s
  let (fraction, s) := splitFraction s
  (readExponent? s).map fun exponent => { sign, whole, fraction, exponent }

def isNegative (l : Literal) : Bool :=
  l.sign = some .minus

def fractionDigits (l : Literal) : List Char :=
  l.fraction.getD []

def significand (l : Literal) : Nat :=
  digitsValue (l.whole ++ l.fractionDigits)

def scale (l : Literal) : Int :=
  l.exponent.getD 0 - (l.fractionDigits.length : Int)

def toBinary64 (l : Literal) : Binary64 :=
  .ofDecimal l.isNegative l.significand l.scale

end Literal

def readNonFinite? (negative : Bool) (s : List Char) : Option Binary64 :=
  let word := s.map Char.toLower
  if word = "inf".toList || word = "infinity".toList then some (.infinite negative)
  else if word = "nan".toList then some .nan
  else none

/-- A number is written in decimal, with a digit on at least one side of the point, or is one of
the three words; the decimal is correctly rounded. -/
def Binary64.read? (s : List Char) : Option Binary64 :=
  let (sign, rest) := splitSign s
  match readNonFinite? (sign = some .minus) rest with
  | some x => some x
  | none =>
    (Literal.read? s).bind fun l =>
      if l.whole.isEmpty && l.fractionDigits.isEmpty then none else some l.toBinary64

end Listing.Numeric
