import Listing.Numeric.Binary64
import Listing.Numeric.Digits

/-!
The shortest decimal of a binary number: of the decimals that read back as the number, those with
the fewest digits, and of these the nearest; of two equally near the greater one. It is written
out in full, without an exponent.
-/

set_option autoImplicit false

namespace Listing.Numeric.Shortest

/-- Every finite number is a whole multiple of `10^-1074`, and decimals are counted in it. -/
def places : Nat :=
  1074

def grainsPerUnit : Nat :=
  Nat.pow 5 places

def readsBack (units grains : Nat) : Bool :=
  nearest grains grainsPerUnit == units

/-- The multiple of `grid` that reads back, the nearer one if the two around the number do. -/
def onGrid? (units grid : Nat) : Option Nat :=
  let exact := units * grainsPerUnit
  let lower := exact / grid * grid
  let upper := lower + grid
  if readsBack units lower then
    if readsBack units upper && upper - exact ≤ exact - lower then some upper else some lower
  else if readsBack units upper then some upper
  else none

def fromGrid (units : Nat) : Nat → Nat
  | 0 => units * grainsPerUnit
  | k + 1 => (onGrid? units (Nat.pow 10 (k + 1))).getD (fromGrid units k)

def grains (units : Nat) : Nat :=
  fromGrid units ((units * grainsPerUnit).log2 / 3 + 1)

def fractionDigits (rest : Nat) : List Char :=
  let digits := decimalDigits rest
  let padded := List.replicate (places - digits.length) '0' ++ digits
  (padded.reverse.dropWhile (· == '0')).reverse

def positional (grains : Nat) : List Char :=
  let rest := grains % Nat.pow 10 places
  decimalDigits (grains / Nat.pow 10 places) ++ if rest = 0 then [] else '.' :: fractionDigits rest

def signed (negative : Bool) (s : List Char) : List Char :=
  if negative then '-' :: s else s

end Listing.Numeric.Shortest

namespace Listing.Numeric

def Binary64.chars : Binary64 → List Char
  | .finite negative units _ =>
    Shortest.signed negative (Shortest.positional (Shortest.grains units))
  | .infinite negative => Shortest.signed negative "inf".toList
  | .nan => "NaN".toList

end Listing.Numeric
