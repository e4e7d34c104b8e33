/-!
UTF-8, read leniently. The reader never fails: where the bytes leave the format it writes one
replacement character for the longest part that could still have begun a character, and starts
afresh at the byte that broke it.
-/

set_option autoImplicit false

namespace Listing.Text.Utf8

def encode (s : List Char) : List UInt8 :=
  s.flatMap String.utf8EncodeChar

def replacement : Char := '\uFFFD'

/-- A character of which some bytes are read: the bits so far, how many bytes are still owed,
and the range of the next one. -/
structure Pending where
  bits : Nat
  owed : Nat
  low : UInt8 := 0x80
  high : UInt8 := 0xBF
  deriving DecidableEq, Repr

/-- The second byte is restricted after `E0`, `ED`, `F0` and `F4`, so that overlong forms,
surrogates and values above U+10FFFF never begin. -/
def start (b : UInt8) : List Char × Option Pending :=
  let n := b.toNat
  if n ≤ 0x7F then ([Char.ofNat n], none)
  else if 0xC2 ≤ n && n ≤ 0xDF then ([], some { bits := n % 0x20, owed := 1 })
  else if n == 0xE0 then ([], some { bits := 0, owed := 2, low := 0xA0 })
  else if n == 0xED then ([], some { bits := 0xD, owed := 2, high := 0x9F })
  else if 0xE1 ≤ n && n ≤ 0xEF then ([], some { bits := n % 0x10, owed := 2 })
  else if n == 0xF0 then ([], some { bits := 0, owed := 3, low := 0x90 })
  else if n == 0xF4 then ([], some { bits := 4, owed := 3, high := 0x8F })
  else if 0xF1 ≤ n && n ≤ 0xF3 then ([], some { bits := n % 8, owed := 3 })
  else ([replacement], none)

def step : Option Pending → UInt8 → List Char × Option Pending
  | none, b => start b
  | some p, b =>
    if p.low ≤ b && b ≤ p.high then
      let bits := p.bits * 0x40 + b.toNat % 0x40
      if p.owed ≤ 1 then ([Char.ofNat bits], none)
      else ([], some { bits := bits, owed := p.owed - 1 })
    else (replacement :: (start b).1, (start b).2)

def decodeFrom (pending : Option Pending) : List UInt8 → List Char
  | [] => if pending.isSome then [replacement] else []
  | b :: bs =>
    let (written, pending) := step pending b
    written ++ decodeFrom pending bs

def decode (bytes : List UInt8) : List Char :=
  decodeFrom none bytes

end Listing.Text.Utf8
