import Listing.Numeric.Digits
import Listing.Text.Utf8

/-!
Form encoding: the text after the question mark of a request. Pairs are separated by `&`, a name
ends at the first `=`, a plus sign is a space, and `%XY` is the byte with that hexadecimal value.
The reader accepts every text: a percent sign without two hexadecimal digits stands for itself.
-/

set_option autoImplicit false

namespace Listing.Form

open Text

def hexByte? (high low : UInt8) : Option UInt8 := do
  let h ← Numeric.hexValue? (Char.ofNat high.toNat)
  let l ← Numeric.hexValue? (Char.ofNat low.toNat)
  return UInt8.ofNat (h * 16 + l)

def plusToSpace (b : UInt8) : UInt8 :=
  if b == 0x2B then 0x20 else b

def unescape : List UInt8 → List UInt8
  | 0x25 :: high :: low :: rest =>
    match hexByte? high low with
    | some b => b :: unescape rest
    | none => 0x25 :: unescape (high :: low :: rest)
  | b :: rest => plusToSpace b :: unescape rest
  | [] => []

def decodeText (s : List Char) : String :=
  String.ofList (Utf8.decode (unescape (Utf8.encode s)))

def readPair (piece : List Char) : String × String :=
  (decodeText (piece.takeWhile (· != '=')), decodeText ((piece.dropWhile (· != '=')).drop 1))

def readPairs (s : List Char) : List (String × String) :=
  ((s.splitOn '&').filter (!·.isEmpty)).map readPair

end Listing.Form
