import Listing.Numeric.Integer
import Listing.Numeric.Literal
import Listing.Numeric.Shortest

set_option autoImplicit false

namespace Listing.Sql

open Numeric

inductive Value
  | text (s : String)
  | integer (i : Int64)
  | real (x : Binary64)
  deriving DecidableEq

def Value.chars : Value → List Char
  | .text s => s.toList
  | .integer i => int64Chars i
  | .real x => x.chars

def Value.display (v : Value) : String :=
  String.ofList v.chars

/-- A count of rows as a value; the widest integer that is bound is signed. -/
def Value.ofCount (n : UInt64) : Value :=
  .integer (Int64.ofNat (min n.toNat int64Max))

inductive Kind
  | text
  | integer
  | real
  deriving DecidableEq, Repr

def Kind.name : Kind → String
  | .text => "Text"
  | .integer => "Integer"
  | .real => "Float"

def Kind.read? (kind : Kind) (raw : String) : Option Value :=
  match kind with
  | .text => some (.text raw)
  | .integer => (readInt64? raw.toList).map .integer
  | .real =>
    (Binary64.read? raw.toList).bind fun x => if x.isFinite then some (.real x) else none

end Listing.Sql
