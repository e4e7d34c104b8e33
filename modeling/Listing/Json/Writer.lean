import Listing.Json.Value
import Listing.Numeric.Shortest

set_option autoImplicit false

namespace Listing.Json

open Numeric

def escapeChar (c : Char) : List Char :=
  if c == '"' then "\\\"".toList
  else if c == '\\' then "\\\\".toList
  else if c == '\x08' then "\\b".toList
  else if c == '\x0C' then "\\f".toList
  else if c == '\n' then "\\n".toList
  else if c == '\r' then "\\r".toList
  else if c == '\t' then "\\t".toList
  else if c.toNat < 0x20 then "\\u00".toList ++ [hexDigit (c.toNat / 16), hexDigit c.toNat]
  else [c]

def writeString (s : String) : List Char :=
  '"' :: s.toList.flatMap escapeChar ++ ['"']

def writeInteger (i : Int) : List Char :=
  if i < 0 then '-' :: decimalDigits i.natAbs else decimalDigits i.natAbs

/-- A real number keeps a point, so that it reads back as one; what is not finite is null. -/
def writeReal (x : Binary64) : List Char :=
  if x.isFinite then
    if x.chars.contains '.' then x.chars else x.chars ++ ".0".toList
  else "null".toList

def separated (items : List (List Char)) : List Char :=
  [','].intercalate items

mutual

def Value.write : Value → List Char
  | .null => "null".toList
  | .bool b => if b then "true".toList else "false".toList
  | .integer i => writeInteger i
  | .real x => writeReal x
  | .string s => writeString s
  | .array items => '[' :: separated (writeItems items) ++ [']']
  | .object members => '\x7b' :: separated (writeMembers members) ++ ['\x7d']

def writeItems : List Value → List (List Char)
  | [] => []
  | v :: rest => v.write :: writeItems rest

def writeMembers : List (String × Value) → List (List Char)
  | [] => []
  | (name, v) :: rest => (writeString name ++ ':' :: v.write) :: writeMembers rest

end

def Value.text (v : Value) : String :=
  String.ofList v.write

end Listing.Json
