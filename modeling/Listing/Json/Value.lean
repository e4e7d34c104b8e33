import Listing.Json.Tree
import Listing.Numeric.Integer

/-!
Values that JSON documents stand for. Reading is strict: escapes must name characters, numbers
must have a value, and at most 127 containers may be open at once. An object may stand for what
a text says, which is then read as a document of its own.
-/

set_option autoImplicit false

namespace Listing.Json

open Numeric

inductive Value
  | null
  | bool (b : Bool)
  | integer (i : Int)
  | real (x : Binary64)
  | string (s : String)
  | array (items : List Value)
  /-- Members are sorted by name when they were read from a document. -/
  | object (members : List (String × Value))

def isLeadUnit (code : Nat) : Bool :=
  0xD800 ≤ code && code ≤ 0xDBFF

def isTrailUnit (code : Nat) : Bool :=
  0xDC00 ≤ code && code ≤ 0xDFFF

def ofUnits (lead trail : Nat) : Char :=
  Char.ofNat (0x10000 + (lead - 0xD800) * 0x400 + (trail - 0xDC00))

/-- A lead unit is followed at once by a trail unit, and a trail unit stands nowhere else. -/
def readParts? : List Part → Option (List Char)
  | [] => some []
  | .char c :: rest => (readParts? rest).map (c :: ·)
  | .unit code :: rest =>
    if isLeadUnit code then
      match rest with
      | .unit trail :: rest =>
        if isTrailUnit trail then (readParts? rest).map (ofUnits code trail :: ·) else none
      | _ => none
    else if isTrailUnit code then none
    else (readParts? rest).map (Char.ofNat code :: ·)

def readString? (parts : List Part) : Option String :=
  (readParts? parts).map String.ofList

/-- Digits added to a significand while it stays below `2^64`, and the digits left over. -/
def gather (significand : Nat) : List Char → Nat × List Char
  | [] => (significand, [])
  | c :: rest =>
    let next := significand * 10 + digitValue c
    if next < UInt64.size then gather next rest else (significand, c :: rest)

def greatestPower : Nat :=
  308

def powerOfTen (k : Nat) : Binary64 :=
  .ofDecimal false 1 k

def scaleDown (x : Binary64) (n : Nat) : Binary64 :=
  if n ≤ greatestPower then x.div (powerOfTen n)
  else if x.isZero then x
  else scaleDown (x.div (powerOfTen greatestPower)) (n - greatestPower)
termination_by n
decreasing_by simp only [greatestPower] at *; omega

def scaleUp? (x : Binary64) (n : Nat) : Option Binary64 :=
  if n ≤ greatestPower then
    let y := x.mul (powerOfTen n)
    if y.isFinite then some y else none
  else if x.isZero then some x
  else none

def scale? (x : Binary64) (exponent : Int) : Option Binary64 :=
  if exponent < 0 then some (scaleDown x exponent.natAbs) else scaleUp? x exponent.natAbs

/-- A real number is not correctly rounded: as many digits as 64 bits hold are rounded first, and
the product or quotient with a power of ten is rounded again. Integer digits that do not fit
count in the exponent, fraction digits that do not fit are dropped. -/
def readReal? (l : Literal) : Option Binary64 :=
  let (whole, wholeLeft) := gather 0 l.whole
  let (significand, fractionLeft) := gather whole l.fractionDigits
  let taken := l.fractionDigits.length - fractionLeft.length
  let exponent := l.exponent.getD 0 + wholeLeft.length - taken
  (scale? (Binary64.ofNat significand) exponent).map fun x =>
    if l.isNegative then x.neg else x

/-- A literal without fraction and exponent is an integer if it fits 64 bits, signed or unsigned;
minus zero is the real number. -/
def readInteger? (l : Literal) : Option Int :=
  if l.fraction.isSome || l.exponent.isSome then none
  else
    let n := digitsValue l.whole
    if l.isNegative then (if 0 < n && n ≤ int64Max + 1 then some (-(n : Int)) else none)
    else if n < UInt64.size then some n
    else none

def Value.ofLeaf? : Leaf → Option Value
  | .null => some .null
  | .bool b => some (.bool b)
  | .number l =>
    match readInteger? l with
    | some i => some (.integer i)
    | none => (readReal? l).map .real
  | .string parts => (readString? parts).map .string

def insertMember (name : String) (v : Value) : List (String × Value) → List (String × Value)
  | [] => [(name, v)]
  | (other, w) :: rest =>
    if name < other then (name, v) :: (other, w) :: rest
    else if name = other then (name, v) :: rest
    else (other, w) :: insertMember name v rest

def sortMembers (members : List (String × Value)) : List (String × Value) :=
  members.foldl (fun sorted m => insertMember m.1 m.2 sorted) []

def embeddingName : String :=
  "$serde_json::private::RawValue"

def isEmbedding : List (List Part × Tree) → Bool
  | [] => false
  | (name, _) :: _ => readString? name == some embeddingName

def embeddedText? : List (List Part × Tree) → Option (List Char)
  | [(_, .leaf (.string parts))] => readParts? parts
  | _ => none

mutual

/-- The value of a tree in which at most `room` more containers are open at once, given the
values of embedded texts. -/
def Value.ofTree? (embedded : List Char → Option Value) (room : Nat) : Tree → Option Value
  | .leaf l => Value.ofLeaf? l
  | .array items =>
    match room with
    | 0 => none
    | room + 1 => (Value.ofItems? embedded room items).map .array
  | .object members =>
    match room with
    | 0 => none
    | room + 1 =>
      if isEmbedding members then (embeddedText? members).bind embedded
      else (Value.ofMembers? embedded room members).map fun ms => .object (sortMembers ms)

def Value.ofItems? (embedded : List Char → Option Value) (room : Nat) :
    List Tree → Option (List Value)
  | [] => some []
  | t :: rest => do
    let v ← Value.ofTree? embedded room t
    let vs ← Value.ofItems? embedded room rest
    return v :: vs

def Value.ofMembers? (embedded : List Char → Option Value) (room : Nat) :
    List (List Part × Tree) → Option (List (String × Value))
  | [] => some []
  | (parts, t) :: rest => do
    let name ← readString? parts
    let v ← Value.ofTree? embedded room t
    let ms ← Value.ofMembers? embedded room rest
    return (name, v) :: ms

end

def greatestDepth : Nat :=
  127

def Value.ofNested? : Nat → List Char → Option Value
  | 0, _ => none
  | n + 1, s => (Tree.ofText? s).bind (Value.ofTree? (Value.ofNested? n) greatestDepth)

/-- The value of a document. An embedded text is shorter than the text around it, so that the
length bounds the nesting. -/
def Value.ofText? (s : List Char) : Option Value :=
  Value.ofNested? s.length s

mutual

/-- Whether no object in a value has the name of embedded texts first. Such an object has further
members, because one without them was replaced when it was read. -/
def Value.isSettled : Value → Bool
  | .array items => Value.areSettled items
  | .object members =>
    members.head?.all (·.1 != embeddingName) && Value.membersSettled members
  | _ => true

def Value.areSettled : List Value → Bool
  | [] => true
  | v :: rest => v.isSettled && Value.areSettled rest

def Value.membersSettled : List (String × Value) → Bool
  | [] => true
  | (_, v) :: rest => v.isSettled && Value.membersSettled rest

end

def Value.ofMembers (members : List (String × Value)) : Value :=
  .object (sortMembers members)

end Listing.Json
