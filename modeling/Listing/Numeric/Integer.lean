import Listing.Numeric.Digits

set_option autoImplicit false

namespace Listing.Numeric

def int64OfInt? (i : Int) : Option Int64 :=
  if Int64.minValue.toInt ≤ i && i ≤ Int64.maxValue.toInt then some (Int64.ofInt i) else none

@[simp] theorem int64OfInt_toInt (i : Int64) : int64OfInt? i.toInt = some i := by
  have hlow : Int64.minValue.toInt ≤ i.toInt := i.minValue_le_toInt
  have hhigh : i.toInt ≤ Int64.maxValue.toInt := i.toInt_le
  rw [int64OfInt?, if_pos (Bool.and_eq_true_iff.2 ⟨decide_eq_true hlow, decide_eq_true hhigh⟩),
    Int64.ofInt_toInt]

theorem int64OfInt?_eq_some_iff {n : Int} {i : Int64} : int64OfInt? n = some i ↔ i.toInt = n := by
  constructor
  · intro h
    unfold int64OfInt? at h
    split at h
    · rename_i hfits
      obtain ⟨hlow, hhigh⟩ := Bool.and_eq_true_iff.1 hfits
      rw [← Option.some.inj h]
      exact Int64.toInt_ofInt_of_le (of_decide_eq_true hlow)
        (Int.lt_of_le_of_lt (of_decide_eq_true hhigh) (by decide))
    · exact nomatch h
  · rintro rfl
    exact int64OfInt_toInt i

def readInt64? (s : List Char) : Option Int64 :=
  let (sign, digits) := splitSign s
  (natural? digits).bind fun n =>
    int64OfInt? (if sign = some .minus then -(n : Int) else n)

def int64Chars (i : Int64) : List Char :=
  if i.toInt < 0 then '-' :: decimalDigits i.toInt.natAbs else decimalDigits i.toInt.natAbs

inductive NumeralFault
  | empty
  | invalidDigit
  | tooLarge
  deriving DecidableEq, Repr

def NumeralFault.message : NumeralFault → String
  | .empty => "cannot parse integer from empty string"
  | .invalidDigit => "invalid digit found in string"
  | .tooLarge => "number too large to fit in target type"

def uint64Max : Nat :=
  UInt64.size - 1

/-- The greatest signed integer of 64 bits; the least is one further from zero. -/
def int64Max : Nat :=
  UInt64.size / 2 - 1

theorem int64OfInt?_eq_none_iff {n : Int} :
    int64OfInt? n = none ↔ n < -(int64Max + 1 : Int) ∨ (int64Max : Int) < n := by
  have hlow : Int64.minValue.toInt = -(int64Max + 1 : Int) := by decide
  have hhigh : Int64.maxValue.toInt = (int64Max : Int) := by decide
  rw [int64OfInt?, hlow, hhigh]
  by_cases hfits : -(int64Max + 1 : Int) ≤ n ∧ n ≤ int64Max
  · simp only [hfits.1, hfits.2, decide_true, Bool.and_self, if_true, reduceCtorEq, false_iff]
    omega
  · have hbeyond : ¬ (decide (-(int64Max + 1 : Int) ≤ n) && decide (n ≤ int64Max)) = true := by
      simpa using hfits
    simp only [if_neg hbeyond, true_iff]
    omega

/-- At each character a wrong digit is found before an overflow. -/
def readUInt64From (value : Nat) : List Char → Except NumeralFault UInt64
  | [] => .ok (UInt64.ofNat value)
  | c :: rest =>
    if c.isDigit then
      let next := value * 10 + digitValue c
      if next < UInt64.size then readUInt64From next rest else .error .tooLarge
    else .error .invalidDigit

/-- A lone plus sign lacks its digits; a minus sign is no digit. -/
def readUInt64 : List Char → Except NumeralFault UInt64
  | [] => .error .empty
  | ['+'] => .error .invalidDigit
  | '+' :: digits => readUInt64From 0 digits
  | digits => readUInt64From 0 digits

def saturatingMul (a b : UInt64) : UInt64 :=
  UInt64.ofNat (min (a.toNat * b.toNat) uint64Max)

@[simp] theorem toNat_saturatingMul (a b : UInt64) :
    (saturatingMul a b).toNat = min (a.toNat * b.toNat) uint64Max :=
  UInt64.toNat_ofNat_of_lt' (Nat.lt_of_le_of_lt (Nat.min_le_right ..) (by decide))

@[simp] theorem toNat_max (a b : UInt64) : (max a b).toNat = max a.toNat b.toNat := by
  change (if a ≤ b then b else a).toNat = _
  by_cases h : a ≤ b
  · rw [if_pos h, Nat.max_eq_right (UInt64.le_iff_toNat_le.1 h)]
  · rw [if_neg h, Nat.max_eq_left]
    rw [UInt64.le_iff_toNat_le] at h
    omega

@[simp] theorem toNat_min (a b : UInt64) : (min a b).toNat = min a.toNat b.toNat := by
  change (if a ≤ b then a else b).toNat = _
  by_cases h : a ≤ b
  · rw [if_pos h, Nat.min_eq_left (UInt64.le_iff_toNat_le.1 h)]
  · rw [if_neg h, Nat.min_eq_right]
    rw [UInt64.le_iff_toNat_le] at h
    omega

end Listing.Numeric
