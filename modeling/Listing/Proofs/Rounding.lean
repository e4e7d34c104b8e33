import Listing.Numeric.Binary64
import Mathlib.Algebra.Order.Ring.Nat

/-!
Rounding to 53 significant bits. A quotient is rounded by its value alone and in order: a larger one
is never rounded to less, and none is carried past a number that has no more than 53 bits. Quotients
stay finite up to half a step above the greatest finite number and become zero below half of the
least.
-/

set_option autoImplicit false

namespace Listing.Numeric

variable {num den num' den' : Nat}

theorem le_divToEven_iff (hd : 0 < den) (k : Nat) :
    k ≤ divToEven num den ↔
      2 * (k * den) < 2 * num + den ∨ 2 * (k * den) = 2 * num + den ∧ k % 2 = 0 := by
  have hsplit : den * (num / den) + num % den = num := Nat.div_add_mod num den
  have hrest : num % den < den := Nat.mod_lt num hd
  unfold divToEven
  dsimp only
  generalize num / den = q at hsplit ⊢
  generalize num % den = r at hsplit hrest ⊢
  rw [Nat.mul_comm] at hsplit
  rcases Nat.lt_trichotomy k (q + 1) with hk | rfl | hk
  · have hle : k * den ≤ q * den := Nat.mul_le_mul_right den (by omega)
    split <;> (try split) <;> omega
  · rw [Nat.add_mul]
    split <;> (try split) <;> omega
  · have hle : (q + 2) * den ≤ k * den := Nat.mul_le_mul_right den (by omega)
    rw [Nat.add_mul] at hle
    split <;> (try split) <;> omega

theorem le_divToEven (hd : 0 < den) {k : Nat} (h : k * den ≤ num) : k ≤ divToEven num den :=
  (le_divToEven_iff hd k).2 (.inl (by omega))

theorem divToEven_le_of_half (hd : 0 < den) {k : Nat} (h : 2 * num < (2 * k + 1) * den) :
    divToEven num den ≤ k := by
  refine Nat.le_of_lt_succ (Nat.lt_of_not_le fun hle => ?_)
  have hreach := (le_divToEven_iff hd (k + 1)).1 hle
  rw [Nat.add_mul, Nat.mul_assoc] at h
  rw [Nat.add_mul] at hreach
  omega

theorem divToEven_mono (hd : 0 < den) (hd' : 0 < den') (h : num * den' ≤ num' * den) :
    divToEven num den ≤ divToEven num' den' := by
  generalize hk : divToEven num den = k
  have hreach := (le_divToEven_iff hd k).1 (Nat.le_of_eq hk.symm)
  rw [le_divToEven_iff hd']
  -- both sides times the other denominator
  have hleft : 2 * (k * den) * den' = 2 * (k * den') * den := by ac_rfl
  have hright : (2 * num + den) * den' ≤ (2 * num' + den') * den := by
    rw [Nat.add_mul, Nat.add_mul, Nat.mul_assoc, Nat.mul_assoc, Nat.mul_comm den' den]
    omega
  rcases hreach with hlt | ⟨heq, heven⟩
  · refine .inl (Nat.lt_of_mul_lt_mul_right (a := den) ?_)
    have hscaled := Nat.mul_lt_mul_of_pos_right hlt hd'
    omega
  · have hle : 2 * (k * den') ≤ 2 * num' + den' :=
      Nat.le_of_mul_le_mul_right (by rw [← hleft, heq]; exact hright) hd
    rcases Nat.lt_or_eq_of_le hle with hlt | heq
    · exact .inl hlt
    · exact .inr ⟨heq, heven⟩

theorem log2_mono {m n : Nat} (h : m ≤ n) : m.log2 ≤ n.log2 := by
  by_cases hm : m = 0
  · rw [hm, Nat.log2_zero]
    exact Nat.zero_le _
  · rw [Nat.le_log2 (by omega)]
    exact Nat.le_trans (Nat.log2_self_le hm) h

theorem spacing_pos (n : Nat) : 0 < spacing n :=
  Nat.two_pow_pos _

theorem spacing_dvd_spacing {m n : Nat} (h : m ≤ n) : spacing m ∣ spacing n := by
  have hlog := log2_mono h
  exact Nat.pow_dvd_pow 2 (by omega)

theorem exists_multiple_between {r n : Nat} (hr : spacing r ∣ r) (h : r ≤ n) :
    ∃ k, r ≤ k * spacing n ∧ k * spacing n ≤ n := by
  rcases Nat.lt_or_eq_of_le (log2_mono h) with hlt | heq
  · -- the power of two at the beginning of the greater number's binade
    have hn : n ≠ 0 := by
      rintro rfl
      simp at hlt
    refine ⟨2 ^ (n.log2 - (n.log2 - 52)), ?_⟩
    have hpower : 2 ^ (n.log2 - (n.log2 - 52)) * spacing n = 2 ^ n.log2 := by
      rw [spacing, Nat.pow_eq, ← Nat.pow_add]
      congr 1
      omega
    rw [hpower]
    refine ⟨?_, Nat.log2_self_le hn⟩
    by_cases hz : r = 0
    · exact hz ▸ Nat.zero_le _
    · exact Nat.le_of_lt ((Nat.log2_lt hz).1 hlt)
  · obtain ⟨k, hk⟩ := hr
    refine ⟨k, ?_⟩
    have hstep : spacing n = spacing r := by rw [spacing, spacing, heq]
    rw [hstep, Nat.mul_comm, ← hk]
    exact ⟨Nat.le_refl _, h⟩

theorem le_nearest (hd : 0 < den) {r : Nat} (hr : spacing r ∣ r) (h : r * den ≤ num) :
    r ≤ nearest num den := by
  obtain ⟨k, hlow, hhigh⟩ := exists_multiple_between hr ((Nat.le_div_iff_mul_le hd).2 h)
  refine Nat.le_trans hlow (Nat.mul_le_mul_right _ (le_divToEven ?_ ?_))
  · exact Nat.mul_pos hd (spacing_pos _)
  · rw [Nat.mul_left_comm, Nat.mul_comm]
    exact (Nat.le_div_iff_mul_le hd).1 hhigh

theorem nearest_le (hd : 0 < den) {r : Nat} (hr : spacing r ∣ r) (h : num ≤ r * den) :
    nearest num den ≤ r := by
  have hle : num / den ≤ r := Nat.div_le_of_le_mul (by rwa [Nat.mul_comm])
  obtain ⟨k, hk⟩ := Nat.dvd_trans (spacing_dvd_spacing hle) hr
  have hpos := Nat.mul_pos hd (spacing_pos (num / den))
  unfold nearest
  generalize spacing (num / den) = step at hk hpos ⊢
  subst hk
  rw [Nat.mul_comm step k]
  refine Nat.mul_le_mul_right step (divToEven_le_of_half hpos ?_)
  have hscaled : step * k * den = k * (den * step) := by ac_rfl
  rw [Nat.add_mul, Nat.mul_assoc, ← hscaled]
  omega

theorem nearest_mul_self (hd : 0 < den) {r : Nat} (hr : spacing r ∣ r) :
    nearest (r * den) den = r :=
  Nat.le_antisymm (nearest_le hd hr (Nat.le_refl _)) (le_nearest hd hr (Nat.le_refl _))

theorem spacing_two_pow_dvd (e : Nat) : spacing (2 ^ e) ∣ 2 ^ e := by
  rw [spacing, Nat.log2_two_pow]
  exact Nat.pow_dvd_pow 2 (Nat.sub_le e 52)

theorem nearest_mono (hd : 0 < den) (hd' : 0 < den') (h : num * den' ≤ num' * den) :
    nearest num den ≤ nearest num' den' := by
  have hquotient : num / den ≤ num' / den' := by
    rw [Nat.le_div_iff_mul_le hd']
    refine Nat.le_of_mul_le_mul_right (Nat.le_trans ?_ h) hd
    rw [Nat.mul_right_comm]
    exact Nat.mul_le_mul_right den' (Nat.div_mul_le_self num den)
  rcases Nat.lt_or_eq_of_le (log2_mono hquotient) with hlt | heq
  · -- the power of two at the beginning of the greater quotient's binade lies between the two
    have hne : num' / den' ≠ 0 := fun hz => by simp [hz] at hlt
    have hbelow : num / den < 2 ^ (num' / den').log2 := by
      by_cases hz : num / den = 0
      · exact hz ▸ Nat.two_pow_pos _
      · exact (Nat.log2_lt hz).1 hlt
    have habove : 2 ^ (num' / den').log2 ≤ num' / den' := Nat.log2_self_le hne
    calc
      _ ≤ 2 ^ (num' / den').log2 := nearest_le hd (spacing_two_pow_dvd _)
        (Nat.le_of_lt ((Nat.div_lt_iff_lt_mul hd).1 hbelow))
      _ ≤ _ := le_nearest hd' (spacing_two_pow_dvd _) ((Nat.le_div_iff_mul_le hd').1 habove)
  · have hstep : spacing (num' / den') = spacing (num / den) := by rw [spacing, spacing, heq]
    have hpos := spacing_pos (num / den)
    unfold nearest
    rw [hstep]
    generalize spacing (num / den) = step at hpos ⊢
    refine Nat.mul_le_mul_right step
      (divToEven_mono (Nat.mul_pos hd hpos) (Nat.mul_pos hd' hpos) ?_)
    rw [← Nat.mul_assoc, ← Nat.mul_assoc]
    exact Nat.mul_le_mul_right step h

theorem spacing_dvd_whole {n : Nat} (h : n ≤ 2 ^ 53) :
    spacing (n * Binary64.unitsOfOne) ∣ n * Binary64.unitsOfOne := by
  unfold Binary64.unitsOfOne
  generalize 1074 = k
  rcases Nat.lt_or_eq_of_le h with hlt | rfl
  · exact spacing_dvd_of_lt hlt
  · rw [Nat.pow_eq, ← Nat.pow_add]
    exact spacing_two_pow_dvd _

theorem spacing_dvd_floor {units : Nat} (h : spacing units ∣ units) :
    spacing (units / Binary64.unitsOfOne * Binary64.unitsOfOne) ∣
      units / Binary64.unitsOfOne * Binary64.unitsOfOne := by
  by_cases hsmall : units / Binary64.unitsOfOne ≤ 2 ^ 53
  · exact spacing_dvd_whole hsmall
  · have hwhole : Binary64.unitsOfOne ∣ units := by
      refine Nat.dvd_trans ?_ h
      unfold Binary64.unitsOfOne at hsmall ⊢
      generalize 1074 = k at hsmall ⊢
      have hle : 2 ^ (53 + k) ≤ units := by
        rw [Nat.pow_add]
        exact (Nat.le_div_iff_mul_le (Nat.two_pow_pos k)).1 (Nat.le_of_not_le hsmall)
      have hlog : 53 + k ≤ units.log2 :=
        (Nat.le_log2 (Nat.ne_of_gt (Nat.lt_of_lt_of_le (Nat.two_pow_pos _) hle))).2 hle
      exact Nat.pow_dvd_pow 2 (by omega)
    simpa only [Nat.div_mul_cancel hwhole] using h

theorem nearest_eq_zero (h : 2 * num < den) : nearest num den = 0 := by
  have hzero : num / den = 0 := Nat.div_eq_of_lt (by omega)
  have hstep : spacing 0 = 1 := by
    rw [spacing, Nat.log2_zero]
  rw [nearest, hzero, hstep, Nat.mul_one, Nat.mul_one]
  exact Nat.le_zero.1 (divToEven_le_of_half (by omega) (by omega))

theorem spacing_of_lt {n e : Nat} (hlow : 2 ^ (53 + e) ≤ n) (hhigh : n < 2 ^ 54 * 2 ^ e) :
    spacing n = 2 * 2 ^ e := by
  have hne : n ≠ 0 := Nat.ne_of_gt (Nat.lt_of_lt_of_le (Nat.two_pow_pos _) hlow)
  have hnext : 2 ^ (53 + e + 1) = 2 ^ 54 * 2 ^ e := by
    rw [← Nat.pow_add]
    congr 1
    omega
  have hlog : n.log2 = 53 + e := (Nat.log2_eq_iff hne).2 ⟨hlow, hnext ▸ hhigh⟩
  have hexponent : 53 + e - 52 = e + 1 := by omega
  rw [spacing, hlog, hexponent, Nat.pow_eq, Nat.pow_succ, Nat.mul_comm]

/-- The greatest number of 53 bits below a power of two has all of them set; half a step above it
begin the quotients that are rounded to the power, since that is the even one of the two. -/
theorem nearest_lt_two_pow_iff (hd : 0 < den) (e : Nat) :
    nearest num den < 2 ^ 54 * 2 ^ e ↔ num < (2 ^ 54 - 1) * 2 ^ e * den := by
  have hpos : 0 < 2 ^ e := Nat.two_pow_pos e
  have hlast : 2 ^ (53 + e) = 2 ^ 53 * 2 ^ e := Nat.pow_add ..
  have htop : 2 ^ (54 + e) = 2 ^ 54 * 2 ^ e := Nat.pow_add ..
  have hbound : num / den < (2 ^ 54 - 1) * 2 ^ e ↔ num < (2 ^ 54 - 1) * 2 ^ e * den :=
    Nat.div_lt_iff_lt_mul hd
  rw [← hbound]
  by_cases hbelow : num / den < 2 ^ (53 + e)
  · have hle := nearest_le hd (spacing_two_pow_dvd (53 + e))
      (Nat.le_of_lt ((Nat.div_lt_iff_lt_mul hd).1 hbelow))
    omega
  by_cases habove : 2 ^ (54 + e) ≤ num / den
  · have hle := le_nearest hd (spacing_two_pow_dvd (54 + e)) ((Nat.le_div_iff_mul_le hd).1 habove)
    omega
  · -- the last binade: the power is reached from half a step below it
    have hstep : den * (2 * 2 ^ e) = 2 * (2 ^ e * den) := by ac_rfl
    have hhalf : 0 < 2 ^ e * den := Nat.mul_pos hpos hd
    have hreach := @le_divToEven_iff num (2 * (2 ^ e * den)) (by omega) (2 ^ 53)
    have hmultiple : 2 ^ 54 * 2 ^ e = 2 ^ 53 * (2 * 2 ^ e) := by omega
    rw [hbound, nearest, spacing_of_lt (Nat.le_of_not_lt hbelow) (htop ▸ Nat.lt_of_not_le habove),
      hmultiple, Nat.mul_lt_mul_right (by omega), hstep, Nat.mul_assoc]
    omega

namespace Binary64

theorem unitsOfOne_eq : unitsOfOne = 2 ^ 1074 := by
  unfold unitsOfOne
  generalize 1074 = k
  rfl

theorem unitsOfOne_pos : 0 < unitsOfOne := by
  unfold unitsOfOne
  generalize 1074 = k
  exact Nat.two_pow_pos k

variable {units : Nat}

theorem ofUnits_eq_finite (negative : Bool) (h : nearest num den = units)
    (hu : units < unitsBound) :
    ofUnits negative num den = .finite negative units ⟨hu, h ▸ spacing_dvd_nearest num den⟩ := by
  subst h
  exact dif_pos hu

theorem isFinite_ofUnits_iff (negative : Bool) (hd : 0 < den) :
    (ofUnits negative num den).isFinite = true ↔ num < (2 ^ 54 - 1) * 2 ^ 2044 * den := by
  have hbound : unitsBound = 2 ^ 54 * 2 ^ 2044 := by
    unfold unitsBound
    generalize he : 2044 = e
    have hexponent : 2098 = 54 + e := by omega
    rw [hexponent]
    exact Nat.pow_add 2 54 e
  rw [← nearest_lt_two_pow_iff hd 2044, ← hbound, ofUnits]
  split
  · rename_i h
    exact ⟨fun _ => h, fun _ => rfl⟩
  · rename_i h
    exact ⟨nofun, fun hlt => absurd hlt h⟩

theorem ofUnits_eq_zero (negative : Bool) (h : 2 * num < den) :
    ofUnits negative num den = .finite negative 0 representable_zero :=
  ofUnits_eq_finite negative (nearest_eq_zero h) representable_zero.1

theorem two_mul_lt_of_small {significand : Nat} {n : Nat} (h : 400 + significand.log2 < n) :
    2 * (significand * unitsOfOne) < 10 ^ n := by
  have hsignificand : significand < 2 ^ (significand.log2 + 1) := Nat.lt_log2_self
  unfold unitsOfOne
  generalize hk : 1074 = k
  calc
    2 * (significand * Nat.pow 2 k) = significand * 2 ^ (k + 1) := by
      rw [Nat.pow_eq, Nat.pow_succ', Nat.mul_left_comm]
    _ < 2 ^ (significand.log2 + 1) * 2 ^ (k + 1) :=
      Nat.mul_lt_mul_of_pos_right hsignificand (Nat.two_pow_pos _)
    _ = 2 ^ (significand.log2 + 1 + (k + 1)) := by rw [← Nat.pow_add]
    _ ≤ 2 ^ (3 * n) := Nat.pow_le_pow_right (by decide) (by omega)
    _ = 8 ^ n := Nat.pow_mul ..
    _ ≤ 10 ^ n := Nat.pow_le_pow_left (by decide) n

/-- But for the exponents that are infinite at once, a decimal is its quotient rounded. -/
theorem ofDecimal_eq_ofUnits (negative : Bool) {significand : Nat} {exponent : Int}
    (h : significand = 0 ∨ exponent ≤ 400) :
    ofDecimal negative significand exponent =
      ofUnits negative (significand * 10 ^ exponent.toNat * unitsOfOne)
        (10 ^ (-exponent).toNat) := by
  unfold ofDecimal
  split
  · rename_i hzero
    rw [hzero, Nat.zero_mul, Nat.zero_mul]
    exact (ofUnits_eq_zero negative (Nat.pow_pos (by decide))).symm
  · rename_i hne
    have hexponent := h.resolve_left hne
    rw [if_neg (by omega)]
    split
    · rename_i hsmall
      have hwhole : exponent.toNat = 0 := by omega
      rw [hwhole, Nat.pow_zero, Nat.mul_one]
      exact (ofUnits_eq_zero negative (two_mul_lt_of_small (by omega))).symm
    · rfl

theorem ofDecimal_eq_infinite (negative : Bool) {significand : Nat} {exponent : Int}
    (hs : significand ≠ 0) (he : 400 < exponent) :
    ofDecimal negative significand exponent = .infinite negative := by
  rw [ofDecimal, if_neg hs, if_pos he]

end Binary64
end Listing.Numeric
