import Listing.Failure
import Listing.Form

set_option autoImplicit false

namespace Listing

open Numeric

structure CountFault where
  name : String
  cause : NumeralFault
  deriving DecidableEq, Repr

def CountFault.message (f : CountFault) : String :=
  "Failed to deserialize query string: " ++ f.name ++ ": " ++ f.cause.message

def CountFault.failure (f : CountFault) : Failure :=
  .badRequest f.message

def readCount (pair : String × String) : Except CountFault (String × UInt64) :=
  match readUInt64 pair.2.toList with
  | .ok n => .ok (pair.1, n)
  | .error cause => .error { name := pair.1, cause }

def readCounts (query : String) : Except CountFault (Table UInt64) :=
  ((Form.readPairs query.toList).mapM readCount).map fun entries => { entries }

end Listing
