/-!
Binary floating-point numbers of 64 bits, as exact values. A finite one is a sign and a multiple
of `2^-1074`, the least positive value; the multiple has at most 53 significant bits and the
value lies below `2^1024`. Every operation is exact arithmetic followed by one rounding to the
nearest representable value, ties to the even significand.
-/

set_option autoImplicit false

namespace Listing.Numeric

def unitsBound : Nat :=
  Nat.pow 2 2098

/-- The distance between neighbours around `units`: one unit while 53 bits suffice. -/
def spacing (units : Nat) : Nat :=
  Nat.pow 2 (units.log2 - 52)

/-- Multiples of `2^-1074` that a finite number can hold: at most 53 significant bits, and
below `2^1024`. -/
def Representable (units : Nat) : Prop :=
  units < unitsBound ∧ spacing units ∣ units

theorem representable_zero : Representable 0 := by
  refine ⟨?_, Nat.dvd_zero _⟩
  unfold unitsBound
  generalize 2098 = k
  exact Nat.two_pow_pos k

inductive Binary64
  | finite (negative : Bool) (units : Nat) (exact : Representable units)
  | infinite (negative : Bool)
  | nan
  deriving DecidableEq

def divToEven (num den : Nat) : Nat :=
  let quotient := num / den
  let remainder := num % den
  if 2 * remainder < den then quotient
  else if den < 2 * remainder then quotient + 1
  else quotient + quotient % 2

def nearest (num den : Nat) : Nat :=
  let step := spacing (num / den)
  divToEven num (den * step) * step

theorem divToEven_le {num den bound : Nat} (h : num < bound * den) :
    divToEven num den ≤ bound := by
  have hq : num / den < bound := Nat.div_lt_of_lt_mul (by rwa [Nat.mul_comm])
  unfold divToEven
  have := Nat.mod_lt (num / den) (by decide : 0 < 2)
  dsimp only
  split
  · omega
  · split <;> omega

theorem spacing_dvd_of_lt {m e : Nat} (h : m < Nat.pow 2 53) :
    spacing (m * Nat.pow 2 e) ∣ m * Nat.pow 2 e := by
  by_cases hm : m * Nat.pow 2 e = 0
  · exact hm ▸ Nat.dvd_zero _
  · refine Nat.dvd_mul_left_of_dvd (Nat.pow_dvd_pow 2 ?_) m
    have : m * Nat.pow 2 e < Nat.pow 2 (53 + e) := by
      rw [Nat.pow_eq, Nat.pow_eq, Nat.pow_add]
      exact Nat.mul_lt_mul_of_pos_right h (Nat.two_pow_pos e)
    have := (Nat.log2_lt hm).2 this
    omega

theorem spacing_dvd_nearest (num den : Nat) : spacing (nearest num den) ∣ nearest num den := by
  unfold nearest
  generalize hs : spacing (num / den) = step
  unfold spacing at hs
  generalize he : (num / den).log2 - 52 = e at hs
  subst hs
  dsimp only
  have hm : divToEven num (den * Nat.pow 2 e) ≤ Nat.pow 2 53 := by
    by_cases hd : den = 0
    · simp only [hd, divToEven, Nat.div_zero, Nat.zero_mod, Nat.zero_mul]
      split <;> (try split) <;> exact Nat.le_trans (by omega) (Nat.two_pow_pos 53)
    · refine divToEven_le ?_
      have hq : num / den < Nat.pow 2 ((num / den).log2 + 1) := Nat.lt_log2_self
      have hle : Nat.pow 2 ((num / den).log2 + 1) ≤ Nat.pow 2 (53 + e) :=
        Nat.pow_le_pow_right (by decide) (by omega)
      have := (Nat.div_lt_iff_lt_mul (Nat.pos_of_ne_zero hd)).1 (Nat.lt_of_lt_of_le hq hle)
      rw [Nat.pow_eq, Nat.pow_add, Nat.mul_assoc, Nat.mul_comm _ den] at this
      exact this
  rcases Nat.lt_or_eq_of_le hm with hm | hm
  · exact spacing_dvd_of_lt hm
  · have := spacing_dvd_of_lt (m := Nat.pow 2 52) (e := e + 1) (by decide)
    rw [hm]
    have hs : Nat.pow 2 53 * Nat.pow 2 e = Nat.pow 2 52 * Nat.pow 2 (e + 1) := by
      simp only [Nat.pow_eq]
      rw [← Nat.pow_add, ← Nat.pow_add]
      congr 1
      omega
    rwa [hs]

namespace Binary64

def unitsOfOne : Nat :=
  Nat.pow 2 1074

/-- The number nearest to `num / den` units; from `2^1024` on it is infinite. -/
def ofUnits (negative : Bool) (num den : Nat) : Binary64 :=
  if h : nearest num den < unitsBound then
    .finite negative (nearest num den) ⟨h, spacing_dvd_nearest num den⟩
  else .infinite negative

def ofNat (n : Nat) : Binary64 :=
  ofUnits false (n * unitsOfOne) 1

def isZero : Binary64 → Bool
  | .finite _ units _ => units == 0
  | _ => false

def isFinite : Binary64 → Bool
  | .finite .. => true
  | _ => false

def neg : Binary64 → Binary64
  | .finite negative units exact => .finite (!negative) units exact
  | .infinite negative => .infinite (!negative)
  | .nan => .nan

def mul : Binary64 → Binary64 → Binary64
  | .finite s a _, .finite t b _ => ofUnits (s ^^ t) (a * b) unitsOfOne
  | .finite s a _, .infinite t | .infinite s, .finite t a _ =>
    if a = 0 then .nan else .infinite (s ^^ t)
  | .infinite s, .infinite t => .infinite (s ^^ t)
  | .nan, _ | _, .nan => .nan

def div : Binary64 → Binary64 → Binary64
  | .finite s a _, .finite t b _ =>
    if b = 0 then (if a = 0 then .nan else .infinite (s ^^ t))
    else ofUnits (s ^^ t) (a * unitsOfOne) b
  | .finite s _ _, .infinite t => .finite (s ^^ t) 0 representable_zero
  | .infinite s, .finite t _ _ => .infinite (s ^^ t)
  | .infinite _, .infinite _ => .nan
  | .nan, _ | _, .nan => .nan

/-- The number nearest to `significand * 10^exponent`. Outside the range in which the exact
quotient is formed, the answer does not depend on the digits. -/
def ofDecimal (negative : Bool) (significand : Nat) (exponent : Int) : Binary64 :=
  if significand = 0 then .finite negative 0 representable_zero
  else if exponent > 400 then .infinite negative
  else if exponent < -(400 + significand.log2 : Nat) then .finite negative 0 representable_zero
  else
    ofUnits negative (significand * Nat.pow 10 exponent.toNat * unitsOfOne)
      (Nat.pow 10 (-exponent).toNat)

def floor? : Binary64 → Option Nat
  | .finite false units _ => some (units / unitsOfOne)
  | _ => none

end Binary64
end Listing.Numeric
