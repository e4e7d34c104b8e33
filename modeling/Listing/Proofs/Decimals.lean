import Listing.Numeric.Literal
import Listing.Proofs.Rounding
import Mathlib.Algebra.Order.Field.Power
import Mathlib.Data.List.TakeWhile
import Mathlib.Data.Rat.Cast.Order
import Mathlib.Tactic.FieldSimp
import Mathlib.Tactic.NormNum
import Mathlib.Tactic.Ring

/-!
Decimals as they are written, and the rational number that each denotes. The reader of numbers takes
every one of them, however its value is spread over digits and exponent, and takes nothing else for
a finite number. What it makes of a decimal is the quotient of its value rounded.
-/

set_option autoImplicit false

namespace Listing.Numeric

def signChars : Option Sign → List Char
  | none => []
  | some .plus => ['+']
  | some .minus => ['-']

def signFactor : Option Sign → Int
  | some .minus => -1
  | _ => 1

theorem signFactor_mul (sign : Option Sign) (n : Nat) :
    signFactor sign * n = if sign = some .minus then -(n : Int) else n := by
  cases sign with
  | none => simp [signFactor]
  | some sign => cases sign <;> simp [signFactor]

structure Exponent where
  capital : Bool
  sign : Option Sign
  digits : List Char
  isDigit : ∀ c ∈ digits, c.isDigit = true
  ne_nil : digits ≠ []

namespace Exponent

def chars (e : Exponent) : List Char :=
  (if e.capital then 'E' else 'e') :: (signChars e.sign ++ e.digits)

def value (e : Exponent) : Int :=
  signFactor e.sign * digitsValue e.digits

end Exponent

/-- At least one digit stands before the point or after it. -/
structure Decimal where
  sign : Option Sign
  whole : List Char
  fraction : Option (List Char)
  exponent : Option Exponent
  isDigit_whole : ∀ c ∈ whole, c.isDigit = true
  isDigit_fraction : ∀ c ∈ fraction.getD [], c.isDigit = true
  hasDigit : whole ≠ [] ∨ fraction.getD [] ≠ []

namespace Decimal

def fractionChars : Option (List Char) → List Char
  | none => []
  | some digits => '.' :: digits

def exponentChars : Option Exponent → List Char
  | none => []
  | some e => e.chars

def unsignedChars (d : Decimal) : List Char :=
  d.whole ++ (fractionChars d.fraction ++ exponentChars d.exponent)

def chars (d : Decimal) : List Char :=
  signChars d.sign ++ d.unsignedChars

def fractionDigits (d : Decimal) : List Char :=
  d.fraction.getD []

def power (d : Decimal) : Int :=
  (d.exponent.map Exponent.value).getD 0

def magnitude (d : Decimal) : ℚ :=
  (digitsValue d.whole + digitsValue d.fractionDigits / 10 ^ d.fractionDigits.length) *
    10 ^ d.power

def value (d : Decimal) : ℚ :=
  signFactor d.sign * d.magnitude

def literal (d : Decimal) : Literal :=
  { sign := d.sign
    whole := d.whole
    fraction := d.fraction
    exponent := d.exponent.map Exponent.value }

end Decimal

theorem splitSign_append (sign : Option Sign) {rest : List Char}
    (h : ∀ c ∈ rest.head?, c ≠ '+' ∧ c ≠ '-') :
    splitSign (signChars sign ++ rest) = (sign, rest) := by
  cases sign with
  | some sign => cases sign <;> rfl
  | none =>
    cases rest with
    | nil => rfl
    | cons c rest =>
      obtain ⟨hplus, hminus⟩ := h c rfl
      rw [signChars, List.nil_append, splitSign]
      · rintro _ ⟨⟩
        exact hplus rfl
      · rintro _ ⟨⟩
        exact hminus rfl

@[simp]
theorem append_splitSign (s : List Char) : signChars (splitSign s).1 ++ (splitSign s).2 = s := by
  unfold splitSign
  split <;> rfl

theorem not_sign_of_isDigit {c : Char} (h : c.isDigit = true) : c ≠ '+' ∧ c ≠ '-' := by
  constructor <;> rintro rfl <;> exact nomatch h

theorem natural?_eq_some_iff {s : List Char} {n : Nat} :
    natural? s = some n ↔ s ≠ [] ∧ (∀ c ∈ s, c.isDigit = true) ∧ digitsValue s = n := by
  unfold natural?
  by_cases hs : s = []
  · simp [hs]
  · simp [hs]

namespace Literal

theorem splitDigits_append {digits rest : List Char} (hd : ∀ c ∈ digits, c.isDigit = true)
    (hr : ∀ c ∈ rest.head?, c.isDigit = false) : splitDigits (digits ++ rest) = (digits, rest) := by
  have hnone : rest.takeWhile Char.isDigit = [] ∧ rest.dropWhile Char.isDigit = rest := by
    cases rest with
    | nil => exact ⟨rfl, rfl⟩
    | cons c rest => simp [hr c rfl]
  rw [splitDigits, List.takeWhile_append_of_pos hd, List.dropWhile_append_of_pos hd, hnone.1,
    hnone.2, List.append_nil]

@[simp] theorem append_splitDigits (s : List Char) : (splitDigits s).1 ++ (splitDigits s).2 = s :=
  List.takeWhile_append_dropWhile

theorem isDigit_splitDigits (s : List Char) : ∀ c ∈ (splitDigits s).1, c.isDigit = true :=
  fun _ hc => List.mem_takeWhile_imp hc

theorem splitFraction_append (fraction : Option (List Char)) {rest : List Char}
    (hd : ∀ c ∈ fraction.getD [], c.isDigit = true)
    (hr : ∀ c ∈ rest.head?, c.isDigit = false ∧ c ≠ '.') :
    splitFraction (Decimal.fractionChars fraction ++ rest) = (fraction, rest) := by
  cases fraction with
  | some digits =>
    have hsplit := splitDigits_append hd fun c hc => (hr c hc).1
    rw [Option.getD_some] at hsplit
    rw [Decimal.fractionChars, List.cons_append, splitFraction, hsplit]
  | none =>
    cases rest with
    | nil => rfl
    | cons c rest =>
      rw [Decimal.fractionChars, List.nil_append, splitFraction]
      rintro _ ⟨⟩
      exact (hr '.' rfl).2 rfl

@[simp] theorem append_splitFraction (s : List Char) :
    Decimal.fractionChars (splitFraction s).1 ++ (splitFraction s).2 = s := by
  unfold splitFraction
  split
  · exact congrArg _ (append_splitDigits _)
  · rfl

theorem isDigit_splitFraction (s : List Char) :
    ∀ c ∈ (splitFraction s).1.getD [], c.isDigit = true := by
  unfold splitFraction
  split
  · exact isDigit_splitDigits _
  · exact nofun

theorem readExponent_cons {c : Char} (hc : c = 'e' ∨ c = 'E') (rest : List Char) :
    readExponent? (c :: rest) =
      (natural? (splitSign rest).2).map fun n : Nat =>
        some (signFactor (splitSign rest).1 * n) := by
  have hmark : (c == 'e' || c == 'E') = true := by simpa using hc
  simp only [readExponent?, if_pos hmark, signFactor_mul]
  cases natural? (splitSign rest).2 <;> rfl

@[simp] theorem readExponent_chars (exponent : Option Exponent) :
    readExponent? (Decimal.exponentChars exponent) = some (exponent.map Exponent.value) := by
  cases exponent with
  | none => rfl
  | some e =>
    have hhead : ∀ c ∈ e.digits.head?, c ≠ '+' ∧ c ≠ '-' := fun c hc =>
      not_sign_of_isDigit (e.isDigit c (List.mem_of_head? hc))
    have hmark : (if e.capital then 'E' else 'e') = 'e' ∨
        (if e.capital then 'E' else 'e') = 'E' := by
      cases e.capital
      · exact .inl rfl
      · exact .inr rfl
    have hdigits : natural? e.digits = some (digitsValue e.digits) :=
      natural?_eq_some_iff.2 ⟨e.ne_nil, e.isDigit, rfl⟩
    rw [Decimal.exponentChars, Exponent.chars, readExponent_cons hmark,
      splitSign_append e.sign hhead, hdigits]
    rfl

theorem exists_exponent {s : List Char} {value : Option Int} (h : readExponent? s = some value) :
    ∃ exponent : Option Exponent,
      Decimal.exponentChars exponent = s ∧ exponent.map Exponent.value = value := by
  cases s with
  | nil => exact ⟨none, rfl, Option.some.inj h⟩
  | cons c rest =>
    by_cases hc : c = 'e' ∨ c = 'E'
    · rw [readExponent_cons hc] at h
      obtain ⟨n, hn, rfl⟩ := Option.map_eq_some_iff.1 h
      obtain ⟨hne, hdigit, rfl⟩ := natural?_eq_some_iff.1 hn
      refine ⟨some ⟨c == 'E', (splitSign rest).1, (splitSign rest).2, hdigit, hne⟩, ?_, rfl⟩
      rw [Decimal.exponentChars, Exponent.chars, append_splitSign]
      rcases hc with rfl | rfl <;> rfl
    · have hmark : ¬ (c == 'e' || c == 'E') = true := by simpa using hc
      rw [readExponent?, if_neg hmark] at h
      exact nomatch h

theorem read_eq (s : List Char) :
    Literal.read? s =
      (readExponent? (splitFraction (splitDigits (splitSign s).2).2).2).map fun exponent =>
        { sign := (splitSign s).1
          whole := (splitDigits (splitSign s).2).1
          fraction := (splitFraction (splitDigits (splitSign s).2).2).1
          exponent } :=
  rfl

end Literal

namespace Decimal

theorem head_exponentChars (exponent : Option Exponent) :
    ∀ c ∈ (exponentChars exponent).head?, c.isDigit = false ∧ c ≠ '.' := by
  cases exponent with
  | none => exact nofun
  | some e =>
    rintro c ⟨⟩
    cases e.capital <;> exact ⟨rfl, nofun⟩

theorem head_afterWhole (fraction : Option (List Char)) (exponent : Option Exponent) :
    ∀ c ∈ (fractionChars fraction ++ exponentChars exponent).head?, c.isDigit = false := by
  cases fraction with
  | none => exact fun c hc => (head_exponentChars exponent c hc).1
  | some digits =>
    rintro c ⟨⟩
    rfl

theorem exists_head (d : Decimal) :
    ∃ c rest, d.unsignedChars = c :: rest ∧ (c.isDigit = true ∨ c = '.') := by
  unfold unsignedChars
  cases hwhole : d.whole with
  | cons c rest => exact ⟨c, _, rfl, .inl (d.isDigit_whole c (hwhole ▸ List.mem_cons_self))⟩
  | nil =>
    cases hfraction : d.fraction with
    | some digits => exact ⟨'.', _, rfl, .inr rfl⟩
    | none => rcases d.hasDigit with h | h <;> simp [hwhole, hfraction] at h

@[simp] theorem splitSign_chars (d : Decimal) : splitSign d.chars = (d.sign, d.unsignedChars) := by
  obtain ⟨c, rest, hd, hc⟩ := d.exists_head
  refine splitSign_append d.sign fun first hfirst => ?_
  rw [hd] at hfirst
  obtain rfl : c = first := Option.some.inj hfirst
  rcases hc with hc | rfl
  · exact not_sign_of_isDigit hc
  · exact ⟨nofun, nofun⟩

@[simp] theorem read_chars (d : Decimal) : Literal.read? d.chars = some d.literal := by
  have hwhole := Literal.splitDigits_append d.isDigit_whole (head_afterWhole d.fraction d.exponent)
  have hfraction := Literal.splitFraction_append d.fraction d.isDigit_fraction
    (head_exponentChars d.exponent)
  rw [Literal.read_eq, splitSign_chars, unsignedChars, hwhole, hfraction,
    Literal.readExponent_chars]
  rfl

theorem exists_of_read {s : List Char} {l : Literal} (h : Literal.read? s = some l)
    (hdigit : l.whole ≠ [] ∨ l.fractionDigits ≠ []) :
    ∃ d : Decimal, d.chars = s ∧ d.literal = l := by
  rw [Literal.read_eq] at h
  obtain ⟨value, hvalue, rfl⟩ := Option.map_eq_some_iff.1 h
  obtain ⟨exponent, hchars, rfl⟩ := Literal.exists_exponent hvalue
  refine ⟨⟨_, _, _, exponent, Literal.isDigit_splitDigits _, Literal.isDigit_splitFraction _,
    hdigit⟩, ?_, rfl⟩
  rw [chars, unsignedChars, hchars, Literal.append_splitFraction, Literal.append_splitDigits,
    append_splitSign]

theorem readNonFinite_unsignedChars (d : Decimal) (negative : Bool) :
    readNonFinite? negative d.unsignedChars = none := by
  obtain ⟨c, rest, hd, hc⟩ := d.exists_head
  have hlower : c.toLower ≠ 'i' ∧ c.toLower ≠ 'n' := by
    rcases hc with hc | rfl
    · exact of_isDigit (p := fun c => c.toLower ≠ 'i' ∧ c.toLower ≠ 'n') (by decide) hc
    · decide
  simp [readNonFinite?, hd, hlower.1, hlower.2]

end Decimal

namespace Binary64

@[simp]
theorem read_decimal (d : Decimal) : Binary64.read? d.chars = some d.literal.toBinary64 := by
  have hdigit : ¬ (d.literal.whole.isEmpty && d.literal.fractionDigits.isEmpty) = true := by
    rw [Bool.not_eq_true, Bool.and_eq_false_iff, List.isEmpty_eq_false_iff,
      List.isEmpty_eq_false_iff]
    exact d.hasDigit
  rw [Binary64.read?, d.splitSign_chars]
  dsimp only
  rw [d.readNonFinite_unsignedChars, d.read_chars]
  exact if_neg hdigit

theorem exists_decimal_of_read {s : List Char} {x : Binary64} (h : Binary64.read? s = some x)
    (hx : x.isFinite = true) : ∃ d : Decimal, d.chars = s ∧ d.literal.toBinary64 = x := by
  unfold Binary64.read? at h
  dsimp only at h
  split at h
  · rename_i y hword
    obtain rfl := Option.some.inj h
    simp only [readNonFinite?] at hword
    split at hword
    · obtain rfl := Option.some.inj hword
      exact nomatch hx
    · split at hword
      · obtain rfl := Option.some.inj hword
        exact nomatch hx
      · exact nomatch hword
  · obtain ⟨l, hl, hdigit⟩ := Option.bind_eq_some_iff.1 h
    split at hdigit
    · exact nomatch hdigit
    · rename_i hne
      rw [Bool.not_eq_true, Bool.and_eq_false_iff, List.isEmpty_eq_false_iff,
        List.isEmpty_eq_false_iff] at hne
      obtain ⟨d, hchars, rfl⟩ := Decimal.exists_of_read hl hne
      exact ⟨d, hchars, Option.some.inj hdigit⟩

end Binary64

theorem digitsValue_append (s t : List Char) :
    digitsValue (s ++ t) = 10 ^ t.length * digitsValue s + digitsValue t := by
  rw [digitsValue, Nat.ofDigitChars_append, Nat.ofDigitChars_eq_ofDigitChars_zero]
  rfl

theorem zpow_mul_pow_toNat_neg (e : Int) : (10 : ℚ) ^ e * 10 ^ (-e).toNat = 10 ^ e.toNat := by
  rw [← zpow_natCast, ← zpow_natCast, ← zpow_add₀ (by decide)]
  congr 1
  omega

namespace Decimal

theorem magnitude_eq (d : Decimal) :
    d.magnitude = d.literal.significand * 10 ^ d.literal.scale := by
  have hdigits : d.literal.significand =
      10 ^ d.fractionDigits.length * digitsValue d.whole + digitsValue d.fractionDigits :=
    digitsValue_append ..
  have hscale : d.literal.scale = d.power - d.fractionDigits.length := rfl
  have hpow : (10 : ℚ) ^ d.fractionDigits.length ≠ 0 := pow_ne_zero _ (by decide)
  rw [magnitude, hdigits, hscale, zpow_sub₀ (by decide), zpow_natCast]
  push_cast
  field_simp

/-- The decimal in units is this number over the next, without its sign. -/
def numerator (d : Decimal) : Nat :=
  d.literal.significand * 10 ^ d.literal.scale.toNat * Binary64.unitsOfOne

def denominator (d : Decimal) : Nat :=
  10 ^ (-d.literal.scale).toNat

theorem denominator_pos (d : Decimal) : 0 < d.denominator :=
  Nat.pow_pos (by decide)

theorem numerator_eq (d : Decimal) :
    (d.numerator : ℚ) = d.magnitude * Binary64.unitsOfOne * d.denominator := by
  rw [magnitude_eq, numerator, denominator]
  push_cast
  rw [← zpow_mul_pow_toNat_neg]
  ring

theorem bound_units :
    (((2 ^ 54 - 1) * 2 ^ 2044 : Nat) : ℚ) = (2 ^ 1024 - 2 ^ 970) * Binary64.unitsOfOne := by
  have hpowers (a b : Nat) :
      (((2 ^ 54 - 1) * 2 ^ (a + b) : Nat) : ℚ) = (2 ^ (54 + a) - 2 ^ a) * ((2 ^ b : Nat) : ℚ) := by
    have hones : ((2 ^ 54 - 1 : Nat) : ℚ) = 2 ^ 54 - 1 := by norm_num
    rw [Nat.cast_mul, hones]
    push_cast
    rw [pow_add, pow_add]
    ring
  rw [Binary64.unitsOfOne_eq]
  simpa only [Nat.reduceAdd] using hpowers 970 1074

theorem numerator_lt_iff (d : Decimal) :
    d.numerator < (2 ^ 54 - 1) * 2 ^ 2044 * d.denominator ↔ d.magnitude < 2 ^ 1024 - 2 ^ 970 := by
  have hden : (0 : ℚ) < d.denominator := Nat.cast_pos.2 d.denominator_pos
  have hone : (0 : ℚ) < Binary64.unitsOfOne := Nat.cast_pos.2 Binary64.unitsOfOne_pos
  have hcast : d.numerator < (2 ^ 54 - 1) * 2 ^ 2044 * d.denominator ↔
      (d.numerator : ℚ) < (((2 ^ 54 - 1) * 2 ^ 2044 : Nat) : ℚ) * d.denominator := by
    rw [← Nat.cast_mul, Nat.cast_lt]
  rw [hcast, bound_units, numerator_eq, mul_lt_mul_iff_left₀ hden, mul_lt_mul_iff_left₀ hone]

theorem le_magnitude_of_lt_scale {d : Decimal} (hs : d.literal.significand ≠ 0)
    (he : 400 < d.literal.scale) : 2 ^ 1024 - 2 ^ 970 ≤ d.magnitude := by
  have hone : (1 : ℚ) ≤ d.literal.significand := Nat.one_le_cast.2 (Nat.pos_of_ne_zero hs)
  have hpow : (0 : ℚ) ≤ 10 ^ d.literal.scale := zpow_nonneg (by decide) _
  calc
    (2 : ℚ) ^ 1024 - 2 ^ 970 ≤ 2 ^ 1024 := sub_le_self _ (pow_nonneg (by decide) 970)
    _ ≤ 2 ^ (3 * 400) := pow_le_pow_right₀ (by decide) (by decide)
    _ = (2 ^ 3) ^ 400 := pow_mul ..
    _ ≤ 10 ^ 400 := pow_le_pow_left₀ (by decide) (by norm_num) 400
    _ = (10 : ℚ) ^ (400 : Int) := (zpow_natCast 10 400).symm
    _ ≤ 10 ^ d.literal.scale := zpow_le_zpow_right₀ (by decide) he.le
    _ ≤ d.literal.significand * 10 ^ d.literal.scale := le_mul_of_one_le_left hpow hone
    _ = d.magnitude := d.magnitude_eq.symm

theorem toBinary64_eq {d : Decimal}
    (h : d.literal.significand = 0 ∨ d.literal.scale ≤ 400) :
    d.literal.toBinary64 = .ofUnits d.literal.isNegative d.numerator d.denominator :=
  Binary64.ofDecimal_eq_ofUnits _ h

theorem isFinite_iff (d : Decimal) :
    d.literal.toBinary64.isFinite = true ↔ d.magnitude < 2 ^ 1024 - 2 ^ 970 := by
  by_cases h : d.literal.significand = 0 ∨ d.literal.scale ≤ 400
  · rw [toBinary64_eq h, Binary64.isFinite_ofUnits_iff _ d.denominator_pos, numerator_lt_iff]
  · obtain ⟨hs, he⟩ := not_or.1 h
    have hle := le_magnitude_of_lt_scale hs (Int.not_le.1 he)
    rw [Literal.toBinary64, Binary64.ofDecimal_eq_infinite _ hs (Int.not_le.1 he)]
    exact ⟨nofun, fun hlt => absurd hlt hle.not_gt⟩

theorem toBinary64_eq_finite {d : Decimal} (h : d.magnitude < 2 ^ 1024 - 2 ^ 970) :
    ∃ exact, d.literal.toBinary64 =
      .finite d.literal.isNegative (nearest d.numerator d.denominator) exact := by
  have hfinite := (isFinite_iff d).2 h
  have hexponent : d.literal.significand = 0 ∨ d.literal.scale ≤ 400 := by
    by_contra hnot
    obtain ⟨hs, he⟩ := not_or.1 hnot
    exact absurd h (le_magnitude_of_lt_scale hs (Int.not_le.1 he)).not_gt
  rw [toBinary64_eq hexponent] at hfinite ⊢
  unfold Binary64.ofUnits at hfinite ⊢
  split
  · rename_i hlt
    exact ⟨⟨hlt, spacing_dvd_nearest ..⟩, rfl⟩
  · rename_i hnot
    rw [dif_neg hnot] at hfinite
    exact absurd hfinite Bool.false_ne_true

theorem magnitude_nonneg (d : Decimal) : 0 ≤ d.magnitude := by
  rw [magnitude_eq]
  exact mul_nonneg (Nat.cast_nonneg _) (zpow_nonneg (by decide) _)

theorem numerator_mul_le {d d' : Decimal} (h : d.magnitude ≤ d'.magnitude) :
    d.numerator * d'.denominator ≤ d'.numerator * d.denominator := by
  have hscaled : ((d.numerator * d'.denominator : Nat) : ℚ) ≤
      ((d'.numerator * d.denominator : Nat) : ℚ) := by
    rw [Nat.cast_mul, Nat.cast_mul, numerator_eq, numerator_eq, mul_right_comm]
    exact mul_le_mul_of_nonneg_right (mul_le_mul_of_nonneg_right
      (mul_le_mul_of_nonneg_right h (Nat.cast_nonneg _)) (Nat.cast_nonneg _)) (Nat.cast_nonneg _)
  exact Nat.cast_le.1 hscaled

end Decimal
end Listing.Numeric
