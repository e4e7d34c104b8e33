set_option autoImplicit false

namespace Listing.Numeric

def decimalDigits (n : Nat) : List Char :=
  Nat.toDigits 10 n

def digitsValue (digits : List Char) : Nat :=
  Nat.ofDigitChars 10 digits 0

def digitValue (c : Char) : Nat :=
  c.toNat - '0'.toNat

def natural? (s : List Char) : Option Nat :=
  if s.isEmpty then none
  else if s.all Char.isDigit then some (digitsValue s)
  else none

def hexValue? (c : Char) : Option Nat :=
  if c.isDigit then some (digitValue c)
  else if 'a' ≤ c && c ≤ 'f' then some (c.toNat - 'a'.toNat + 10)
  else if 'A' ≤ c && c ≤ 'F' then some (c.toNat - 'A'.toNat + 10)
  else none

def hexDigit (n : Nat) : Char :=
  Nat.digitChar (n % 16)

inductive Sign
  | plus
  | minus
  deriving DecidableEq, Repr

def splitSign : List Char → Option Sign × List Char
  | '+' :: rest => (some .plus, rest)
  | '-' :: rest => (some .minus, rest)
  | s => (none, s)

theorem of_isDigit {p : Char → Prop} (h : ∀ n < 58, 48 ≤ n → p (Char.ofNat n)) {c : Char}
    (hc : c.isDigit = true) : p c := by
  obtain ⟨hlow, hhigh⟩ : 48 ≤ c.toNat ∧ c.toNat ≤ 57 := Char.isDigit_iff_toNat.1 hc
  have hp := h c.toNat (by omega) hlow
  rwa [Char.ofNat_toNat] at hp

theorem isDigit_of_mem_decimalDigits {n : Nat} {c : Char} (h : c ∈ decimalDigits n) :
    c.isDigit = true :=
  Nat.isDigit_of_mem_toDigits (by decide) (by decide) h

@[simp] theorem digitsValue_decimalDigits (n : Nat) : digitsValue (decimalDigits n) = n :=
  Nat.ofDigitChars_toDigits (by decide) (by decide)

end Listing.Numeric
