import Listing.Proofs.Decimals
import Listing.Proofs.PageBounds
import Mathlib.Tactic.Linarith

set_option autoImplicit false

namespace Listing

open Numeric

/-- A text that denotes a number is one of its decimals, with blanks around it. -/
def Text.Denotes (text : String) (v : ℚ) : Prop :=
  ∃ (d : Decimal) (before after : List Char),
    (∀ c ∈ before, isBlank c = true) ∧ (∀ c ∈ after, isBlank c = true) ∧
      text.toList = before ++ d.chars ++ after ∧ d.value = v

namespace Numeric

theorem not_isBlank_of_isDigit {c : Char} (h : c.isDigit = true) : Text.isBlank c = false :=
  of_isDigit (p := fun c => Text.isBlank c = false) (by decide) h

theorem not_isBlank_signChars (sign : Option Sign) :
    ∀ c ∈ signChars sign, Text.isBlank c = false := by
  cases sign with
  | none => exact nofun
  | some sign => cases sign <;> exact List.forall_mem_singleton.2 rfl

namespace Decimal

theorem not_isBlank_chars (d : Decimal) : ∀ c ∈ d.chars, Text.isBlank c = false := by
  have hfraction : ∀ c ∈ fractionChars d.fraction, Text.isBlank c = false := by
    cases hf : d.fraction with
    | none => exact nofun
    | some digits =>
      refine List.forall_mem_cons.2 ⟨by decide, fun c hc => not_isBlank_of_isDigit ?_⟩
      exact d.isDigit_fraction c (by rwa [hf])
  have hexponent : ∀ c ∈ exponentChars d.exponent, Text.isBlank c = false := by
    cases d.exponent with
    | none => exact nofun
    | some e =>
      refine List.forall_mem_cons.2 ⟨by cases e.capital <;> decide, ?_⟩
      exact List.forall_mem_append.2 ⟨not_isBlank_signChars e.sign,
        fun c hc => not_isBlank_of_isDigit (e.isDigit c hc)⟩
  unfold chars unsignedChars
  simp only [List.forall_mem_append]
  exact ⟨not_isBlank_signChars d.sign, fun c hc => not_isBlank_of_isDigit (d.isDigit_whole c hc),
    hfraction, hexponent⟩

theorem toList_strip {d : Decimal} {text : String} {before after : List Char}
    (hbefore : ∀ c ∈ before, Text.isBlank c = true) (hafter : ∀ c ∈ after, Text.isBlank c = true)
    (h : text.toList = before ++ d.chars ++ after) : (Text.strip text).toList = d.chars := by
  rw [Text.toList_strip, h, Text.stripChars_surrounded hbefore _ hafter]
  exact Text.stripChars_eq_self (fun c hc => d.not_isBlank_chars c (List.mem_of_mem_head? hc))
    (fun c hc => d.not_isBlank_chars c (List.mem_of_mem_getLast? hc))

end Decimal
end Numeric

theorem Text.Denotes.exists_decimal {text : String} {v : ℚ} (h : Text.Denotes text v) :
    ∃ d : Decimal, (Text.strip text).toList = d.chars ∧ d.value = v := by
  obtain ⟨d, before, after, hbefore, hafter, hchars, hvalue⟩ := h
  exact ⟨d, d.toList_strip hbefore hafter hchars, hvalue⟩

namespace Numeric.Decimal

/-- Nothing is left of a negative number. -/
def wholePart (d : Decimal) : Nat :=
  if d.literal.isNegative then 0
  else nearest d.numerator d.denominator / Binary64.unitsOfOne

theorem value_eq (d : Decimal) :
    d.value = if d.literal.isNegative then -d.magnitude else d.magnitude := by
  unfold value Literal.isNegative literal
  cases d.sign with
  | none => simp [signFactor]
  | some sign => cases sign <;> simp [signFactor]

theorem numerator_of_whole {d : Decimal} {n : Nat} (h : d.magnitude = n) :
    d.numerator = n * Binary64.unitsOfOne * d.denominator := by
  have hcast := d.numerator_eq
  rw [h] at hcast
  exact_mod_cast hcast

theorem wholePart_mono {d d' : Decimal} (h : d.value ≤ d'.value) : d.wholePart ≤ d'.wholePart := by
  unfold wholePart
  rw [value_eq, value_eq] at h
  by_cases hnegative : d.literal.isNegative = true
  · rw [if_pos hnegative]
    exact Nat.zero_le _
  rw [if_neg hnegative] at h ⊢
  by_cases hnegative' : d'.literal.isNegative = true
  · -- only zero is not above a negative number without being one
    rw [if_pos hnegative'] at h
    have hnonneg := d.magnitude_nonneg
    have hnonneg' := d'.magnitude_nonneg
    have hzero : d.magnitude = 0 := by linarith
    have hnumerator : d.numerator = 0 := by
      rw [numerator_of_whole (hzero.trans Nat.cast_zero.symm), Nat.zero_mul, Nat.zero_mul]
    rw [if_pos hnegative', hnumerator, nearest_eq_zero (by exact d.denominator_pos), Nat.zero_div]
  · rw [if_neg hnegative'] at h ⊢
    exact Nat.div_le_div_right
      (nearest_mono d.denominator_pos d'.denominator_pos (numerator_mul_le h))

theorem wholePart_eq {d : Decimal} {n : Nat} (h : d.value = n)
    (hn : spacing (n * Binary64.unitsOfOne) ∣ n * Binary64.unitsOfOne) : d.wholePart = n := by
  have hnonneg := d.magnitude_nonneg
  have hn0 : (0 : ℚ) ≤ n := Nat.cast_nonneg n
  unfold wholePart
  rw [value_eq] at h
  split
  · rename_i hnegative
    rw [if_pos hnegative] at h
    have hzero : (n : ℚ) = 0 := by linarith
    exact_mod_cast hzero.symm
  · rename_i hnegative
    rw [if_neg hnegative] at h
    rw [numerator_of_whole h, nearest_mul_self d.denominator_pos hn,
      Nat.mul_div_cancel _ Binary64.unitsOfOne_pos]

theorem floor_of_isNegative {d : Decimal} (h : d.literal.isNegative = true) :
    d.literal.toBinary64.floor? = none := by
  rw [Literal.toBinary64, h]
  unfold Binary64.ofDecimal Binary64.ofUnits
  split
  · rfl
  split
  · rfl
  split
  · rfl
  split <;> rfl

end Numeric.Decimal

def positive? (n : Nat) : Option UInt64 :=
  if n = 0 then none else some (UInt64.ofNat (min n uint64Max))

theorem readPositive_eq (raw : String) :
    readPositive? raw =
      ((Binary64.read? (Text.strip raw).toList).bind Binary64.floor?).bind positive? :=
  rfl

theorem toNat_ofNat_min (n : Nat) : (UInt64.ofNat (min n uint64Max)).toNat = min n uint64Max :=
  UInt64.toNat_ofNat_of_lt' (Nat.lt_of_le_of_lt (Nat.min_le_right ..) (by decide))

theorem positive?_eq_some_iff {m : Nat} {n : UInt64} :
    positive? m = some n ↔ 1 ≤ m ∧ n.toNat = min m uint64Max := by
  unfold positive?
  split
  · rename_i hzero
    simp [hzero]
  · rename_i hzero
    rw [Option.some.injEq, ← UInt64.toNat_inj, toNat_ofNat_min, eq_comm]
    exact (and_iff_right (Nat.one_le_iff_ne_zero.2 hzero)).symm

theorem Numeric.Binary64.floor_finite (units : Nat) (exact : Representable units) :
    (Binary64.finite false units exact).floor? = some (units / Binary64.unitsOfOne) :=
  rfl

theorem positive_toNat {p : UInt64} (h : 1 ≤ p.toNat) : positive? p.toNat = some p := by
  have hmax : p.toNat ≤ uint64Max := Nat.le_pred_of_lt p.toNat_lt
  exact positive?_eq_some_iff.2 ⟨h, (Nat.min_eq_left hmax).symm⟩

theorem toNat_getD_positive (n : Nat) :
    ((positive? n).getD 1).toNat = max 1 (min n uint64Max) := by
  have hone : 1 ≤ uint64Max := by decide
  by_cases hn : n = 0
  · rw [hn]
    rfl
  · rw [positive?, if_neg hn, Option.getD_some, toNat_ofNat_min]
    omega

theorem readPositive_of_decimal {text : String} {d : Decimal}
    (htext : (Text.strip text).toList = d.chars) (h : d.value < 2 ^ 1024 - 2 ^ 970) :
    readPositive? text = positive? d.wholePart := by
  rw [readPositive_eq, htext, Binary64.read_decimal, Option.bind_some]
  unfold Decimal.wholePart
  by_cases hnegative : d.literal.isNegative = true
  · rw [if_pos hnegative, Decimal.floor_of_isNegative hnegative]
    rfl
  · have hmagnitude : d.magnitude < 2 ^ 1024 - 2 ^ 970 := by
      rwa [Decimal.value_eq, if_neg hnegative] at h
    obtain ⟨exact, hfinite⟩ := Decimal.toBinary64_eq_finite hmagnitude
    rw [if_neg hnegative, hfinite, Bool.eq_false_iff.2 hnegative, Binary64.floor_finite,
      Option.bind_some]

theorem two_pow_le_bound {k : Nat} (h : k ≤ 1023) : (2 : ℚ) ^ k ≤ 2 ^ 1024 - 2 ^ 970 := by
  refine le_sub_iff_add_le.2 ?_
  calc
    (2 : ℚ) ^ k + 2 ^ 970 ≤ 2 ^ 1023 + 2 ^ 1023 :=
      add_le_add (pow_le_pow_right₀ one_le_two h) (pow_le_pow_right₀ one_le_two (by decide))
    _ = 2 ^ 1024 := by rw [← two_mul, ← pow_succ']

theorem lt_bound_of_lt {n : Nat} (h : n < 2 ^ 64) : (n : ℚ) < 2 ^ 1024 - 2 ^ 970 := by
  have hfits : (n : ℚ) < 2 ^ 64 := by exact_mod_cast h
  exact hfits.trans_le (two_pow_le_bound (by decide))

theorem toNat_ofNat_of_le {n : Nat} (h : n ≤ 2 ^ 53) : (UInt64.ofNat n).toNat = n :=
  UInt64.toNat_ofNat_of_lt' (Nat.lt_of_le_of_lt h (by decide))

theorem readPositive_of_whole {text : String} {n : UInt64} (htext : Text.Denotes text n.toNat)
    (hpos : 1 ≤ n.toNat)
    (hn : spacing (n.toNat * Binary64.unitsOfOne) ∣ n.toNat * Binary64.unitsOfOne) :
    readPositive? text = some n := by
  obtain ⟨d, hchars, hvalue⟩ := htext.exists_decimal
  have hsmall : d.value < 2 ^ 1024 - 2 ^ 970 := hvalue ▸ lt_bound_of_lt n.toNat_lt
  rw [readPositive_of_decimal hchars hsmall, Decimal.wholePart_eq hvalue hn, positive_toNat hpos]

theorem readPositive_of_le {text : String} {n : Nat} (htext : Text.Denotes text n) (hpos : 1 ≤ n)
    (hn : n ≤ 2 ^ 53) : readPositive? text = some (UInt64.ofNat n) := by
  have hnat := toNat_ofNat_of_le hn
  exact readPositive_of_whole (by rwa [hnat]) (by rwa [hnat]) (spacing_dvd_whole (by rwa [hnat]))

theorem getD_readPositive_mono {text text' : String} {v v' : ℚ} (htext : Text.Denotes text v)
    (htext' : Text.Denotes text' v') (h : v ≤ v') (hbound : v' < 2 ^ 1024 - 2 ^ 970) :
    (readPositive? text).getD 1 ≤ (readPositive? text').getD 1 := by
  obtain ⟨d, hchars, rfl⟩ := htext.exists_decimal
  obtain ⟨d', hchars', rfl⟩ := htext'.exists_decimal
  have hwhole := Decimal.wholePart_mono h
  rw [readPositive_of_decimal hchars (h.trans_lt hbound), readPositive_of_decimal hchars' hbound,
    UInt64.le_iff_toNat_le, toNat_getD_positive, toNat_getD_positive]
  omega

theorem PageLimits.requestedPage_eq {params : Parameters} {text : String}
    (h : params.get? "page" = some text) :
    requestedPage params = (readPositive? text).getD 1 := by
  rw [requestedPage, h, Option.bind_some]

theorem PageLimits.requestedSize_eq (limits : PageLimits) {params : Parameters} {text : String}
    (h : params.get? "pageSize" = some text) :
    limits.requestedSize params = (readPositive? text).getD (max limits.default 1) := by
  rw [requestedSize, h, Option.bind_some]

/-- A page and a size of up to 53 bits are read as they are, whatever decimal a client writes for
them, and of two pages the one for the smaller number is not the greater, as long as the numbers
are within the range of finite ones. -/
theorem page_texts_are_read_exactly_and_in_order (limits : PageLimits) :
    (∀ (params : Parameters) (text : String) (n : Nat), Text.Denotes text n →
      1 ≤ n → n ≤ 2 ^ 53 →
      (params.get? "page" = some text → (limits.resolve params).value.page.toNat = n) ∧
      (params.get? "pageSize" = some text →
        (limits.requestedSize params).toNat = n ∧
        (limits.resolve params).value.size.toNat = min n (max 1 limits.greatest.toNat))) ∧
    ∀ (params params' : Parameters) (text text' : String) (v v' : ℚ),
      Text.Denotes text v → Text.Denotes text' v' → v ≤ v' → v' < 2 ^ 1024 - 2 ^ 970 →
      params.get? "page" = some text → params'.get? "page" = some text' →
      (limits.resolve params).value.page ≤ (limits.resolve params').value.page := by
  refine ⟨fun params text n htext hpos hn => ?_,
    fun params params' text text' v v' htext htext' h hbound hpage hpage' => ?_⟩
  · have hread := readPositive_of_le htext hpos hn
    have hnat := toNat_ofNat_of_le hn
    constructor
    · intro hpage
      rw [PageLimits.value_resolve, PageLimits.requestedPage_eq hpage, hread]
      exact hnat
    · intro hsize
      have hrequested : (limits.requestedSize params).toNat = n := by
        rw [limits.requestedSize_eq hsize, hread]
        exact hnat
      refine ⟨hrequested, ?_⟩
      rw [PageLimits.value_resolve, toNat_min, hrequested, PageLimits.toNat_cap, Nat.max_comm]
  · rw [PageLimits.value_resolve, PageLimits.value_resolve]
    dsimp only
    rw [PageLimits.requestedPage_eq hpage, PageLimits.requestedPage_eq hpage']
    exact getD_readPositive_mono htext htext' h hbound

theorem page_texts_are_read_exactly_and_in_order_tenths :
    let tenths : Parameters := { entries := [("page", "\u00a0+030e-1 "), ("pageSize", "30.E-1")] }
    let many : Parameters := { entries := [("page", "2.5E19")] }
    let limits : PageLimits := {}
    (limits.resolve tenths).value.page.toNat = 3 ∧
      (limits.resolve tenths).value.size.toNat = 3 ∧
      (limits.resolve tenths).value.page ≤ (limits.resolve many).value.page := by
  intro tenths many limits
  have hpage : Text.Denotes "\u00a0+030e-1 " (3 : Nat) := by
    refine ⟨⟨some .plus, ['0', '3', '0'], none, some ⟨false, some .minus, ['1'],
      List.all_eq_true.1 rfl, nofun⟩, List.all_eq_true.1 rfl, nofun, .inl nofun⟩, ['\u00a0'], [' '],
      List.all_eq_true.1 rfl, List.all_eq_true.1 rfl, rfl, ?_⟩
    change ((1 : Int) : ℚ) * (((30 : Nat) + (0 : Nat) / 10 ^ 0) * 10 ^ (-1 : Int)) = (3 : Nat)
    norm_num
  have hsize : Text.Denotes "30.E-1" (3 : Nat) := by
    refine ⟨⟨none, ['3', '0'], some [], some ⟨true, some .minus, ['1'],
      List.all_eq_true.1 rfl, nofun⟩, List.all_eq_true.1 rfl, nofun, .inl nofun⟩, [], [],
      nofun, nofun, rfl, ?_⟩
    change ((1 : Int) : ℚ) * (((30 : Nat) + (0 : Nat) / 10 ^ 0) * 10 ^ (-1 : Int)) = (3 : Nat)
    norm_num
  have hmany : Text.Denotes "2.5E19" (25 * 10 ^ 18) := by
    refine ⟨⟨none, ['2'], some ['5'], some ⟨true, none, ['1', '9'], List.all_eq_true.1 rfl, nofun⟩,
      List.all_eq_true.1 rfl, List.all_eq_true.1 rfl, .inl nofun⟩, [], [], nofun, nofun, rfl, ?_⟩
    change ((1 : Int) : ℚ) * (((2 : Nat) + (5 : Nat) / 10 ^ 1) * 10 ^ (19 : Int)) = 25 * 10 ^ 18
    norm_num
  have hfits : (25 * 10 ^ 18 : ℚ) < 2 ^ 65 := by norm_num
  obtain ⟨hexact, horder⟩ := page_texts_are_read_exactly_and_in_order limits
  exact ⟨(hexact tenths _ 3 hpage (by decide) (by decide)).1 rfl,
    ((hexact tenths _ 3 hsize (by decide) (by decide)).2 rfl).2,
    horder tenths many _ _ 3 (25 * 10 ^ 18) hpage hmany (by norm_num)
      (hfits.trans_le (two_pow_le_bound (by decide))) rfl rfl⟩

def Numeric.Decimal.ofNat (n : Nat) : Decimal where
  sign := none
  whole := decimalDigits n
  fraction := none
  exponent := none
  isDigit_whole := fun _ => isDigit_of_mem_decimalDigits
  isDigit_fraction := nofun
  hasDigit := .inl Nat.toDigits_ne_nil

namespace Numeric.Decimal

@[simp] theorem chars_ofNat (n : Nat) : (ofNat n).chars = decimalDigits n :=
  List.append_nil _

@[simp] theorem magnitude_ofNat (n : Nat) : (ofNat n).magnitude = n := by
  have hvalue : digitsValue (ofNat n).whole = n := digitsValue_decimalDigits n
  rw [magnitude, hvalue]
  simp [fractionDigits, power, ofNat, digitsValue]

@[simp] theorem value_ofNat (n : Nat) : (ofNat n).value = n := by
  rw [value_eq, magnitude_ofNat]
  rfl

end Numeric.Decimal

theorem denotes_countText (n : UInt64) : Text.Denotes (Notice.countText n) n.toNat := by
  refine ⟨.ofNat n.toNat, [], [], nofun, nofun, ?_, Decimal.value_ofNat n.toNat⟩
  rw [Notice.countText, String.toList_ofList, Decimal.chars_ofNat, List.nil_append, List.append_nil]

/-- The greatest page is not a number of 53 bits. It is rounded up and cut off to itself. -/
theorem readPositive_greatest {text : String} (htext : Text.Denotes text uint64Max) :
    readPositive? text = some (UInt64.ofNat uint64Max) := by
  obtain ⟨d, hchars, hvalue⟩ := htext.exists_decimal
  have hgreatest : uint64Max ≤ (Decimal.ofNat uint64Max).wholePart := by decide +kernel
  have hwhole : uint64Max ≤ d.wholePart := hgreatest.trans (Decimal.wholePart_mono
    (((Decimal.value_ofNat uint64Max).trans hvalue.symm).le))
  have hsmall : d.value < 2 ^ 1024 - 2 ^ 970 := hvalue ▸ lt_bound_of_lt (by decide)
  have hone : 1 ≤ uint64Max := by decide
  rw [readPositive_of_decimal hchars hsmall, positive?, if_neg (by omega), Nat.min_eq_right hwhole]

theorem readPositive_countText {raw : String} {p : UInt64} (h : readPositive? raw = some p) :
    readPositive? (Notice.countText p) = some p := by
  have hpos := one_le_of_readPositive h
  have htext := denotes_countText p
  rw [readPositive_eq] at h
  obtain ⟨n, hfloor, hn⟩ := Option.bind_eq_some_iff.1 h
  obtain ⟨x, -, hx⟩ := Option.bind_eq_some_iff.1 hfloor
  obtain ⟨units, exact, rfl⟩ :
      ∃ units, ∃ _ : Representable units, units / Binary64.unitsOfOne = n := by
    unfold Binary64.floor? at hx
    split at hx
    · exact ⟨_, ‹_›, Option.some.inj hx⟩
    · exact nomatch hx
  have hp : p.toNat = min (units / Binary64.unitsOfOne) uint64Max := (positive?_eq_some_iff.1 hn).2
  rcases Nat.le_total (units / Binary64.unitsOfOne) uint64Max with hle | hle
  · rw [Nat.min_eq_left hle] at hp
    refine readPositive_of_whole htext hpos ?_
    rw [hp]
    exact spacing_dvd_floor exact.2
  · rw [Nat.min_eq_right hle] at hp
    rw [hp] at htext
    rw [readPositive_greatest htext, ← hp, UInt64.ofNat_toNat]

theorem PageLimits.readPositive_requestedPage (params : Parameters) :
    readPositive? (Notice.countText (requestedPage params)) = some (requestedPage params) := by
  unfold requestedPage
  cases h : (params.get? "page").bind readPositive? with
  | some p =>
    obtain ⟨raw, -, hraw⟩ := Option.bind_eq_some_iff.1 h
    exact readPositive_countText hraw
  | none =>
    have hone := denotes_countText 1
    exact readPositive_of_whole hone (by decide) (spacing_dvd_whole (by decide))

def Window.parameters (w : Window) (term : Option String) : Parameters :=
  { entries := [("page", Notice.countText w.page), ("pageSize", Notice.countText w.size)] ++
      (term.map ("search", ·)).toList }

namespace Window

variable (w : Window) (term : Option String)

@[simp] theorem get?_page : (w.parameters term).get? "page" = some (Notice.countText w.page) := by
  cases term <;> rfl

@[simp]
theorem get?_pageSize : (w.parameters term).get? "pageSize" = some (Notice.countText w.size) := by
  cases term <;> rfl

@[simp] theorem get?_search : (w.parameters term).get? "search" = term := by
  cases term <;> rfl

end Window

theorem Search.term?_of_term? {params again : Parameters}
    (h : again.get? "search" = term? params) : term? again = term? params := by
  cases hterm : term? params with
  | none => rw [term?, Parameters.stripped?, h, hterm, Option.bind_none]
  | some term =>
    obtain ⟨hne, hhead, hlast⟩ := term?_stripped hterm
    have hstrip : Text.strip term = term := by
      rw [Text.strip, Text.stripChars_eq_self hhead hlast, String.ofList_toList]
    rw [term?, Parameters.stripped?, h, hterm, Option.bind_some, hstrip]
    simp [hne]

namespace PageLimits

theorem requestedPage_parameters {params : Parameters} {w : Window}
    (h : w.page = requestedPage params) (term : Option String) :
    requestedPage (w.parameters term) = w.page := by
  rw [requestedPage_eq (w.get?_page term), h, readPositive_requestedPage, Option.getD_some]

theorem requestedSize_parameters (limits : PageLimits) {w : Window} (hpos : 1 ≤ w.size.toNat)
    (h : w.size.toNat ≤ 2 ^ 53) (term : Option String) :
    limits.requestedSize (w.parameters term) = w.size := by
  have hread := readPositive_of_whole (denotes_countText w.size) hpos (spacing_dvd_whole h)
  rw [limits.requestedSize_eq (w.get?_pageSize term), hread, Option.getD_some]

end PageLimits

/-- The window and the term of a request, asked for by their own texts, are resolved to themselves:
the first page and the greatest one, pages that are further apart than one, and sizes that were cut
to the limit. Of the limits only the greatest size has to keep to 53 bits. -/
theorem resolved_window_can_be_sent_back (limits : PageLimits)
    (hgreatest : limits.greatest.toNat ≤ 2 ^ 53) (params : Parameters) :
    let window := (limits.resolve params).value
    let term := Search.term? params
    let again := window.parameters term
    (limits.resolve again).value = window ∧
      (limits.resolve again).value.offset = window.offset ∧ Search.term? again = term := by
  intro window term again
  have hle : window.size.toNat ≤ max 1 limits.greatest.toNat := limits.size_le params
  have hpage : PageLimits.requestedPage again = window.page :=
    PageLimits.requestedPage_parameters (congrArg Window.page (limits.value_resolve params)) term
  have hsmall : window.size.toNat ≤ 2 ^ 53 := hle.trans (max_le (by decide) hgreatest)
  have hsize : limits.requestedSize again = window.size :=
    limits.requestedSize_parameters (limits.one_le_size params) hsmall term
  have hcap : min window.size limits.cap = window.size := by
    rw [← UInt64.toNat_inj, toNat_min, PageLimits.toNat_cap]
    omega
  have hwindow : (limits.resolve again).value = window := by
    rw [PageLimits.value_resolve, hpage, hsize, hcap]
  exact ⟨hwindow, congrArg Window.offset hwindow, Search.term?_of_term? (window.get?_search term)⟩

theorem resolved_window_can_be_sent_back_greatest :
    let params : Parameters :=
      { entries := [("page", "1e300"), ("pageSize", " 7.9"), ("search", "  acme ")] }
    let limits : PageLimits := {}
    let window := (limits.resolve params).value
    window = { page := 18446744073709551615, size := 7 } ∧ Search.term? params = some "acme" ∧
      (limits.resolve (window.parameters (some "acme"))).value = window := by
  intro params limits window
  have hwindow : window = { page := 18446744073709551615, size := 7 } := by decide +kernel
  have hterm : Search.term? params = some "acme" := by decide +kernel
  obtain ⟨hagain, -⟩ := resolved_window_can_be_sent_back limits (by decide) params
  rw [hterm] at hagain
  exact ⟨hwindow, hterm, hagain⟩

end Listing
