import Listing.Notice
import Listing.Numeric.Integer
import Listing.Numeric.Literal
import Listing.Parameters

/-!
Pages of a listing. Page numbers and sizes are read leniently: a text that is not a number of at
least one falls back to the first page or the default size, a fraction is cut off, and a size
above the limit is cut to it. A window so resolved has a positive page and a positive size.
-/

set_option autoImplicit false

namespace Listing

open Numeric

structure PageLimits where
  default : UInt64 := 20
  greatest : UInt64 := 100
  deriving DecidableEq, Repr

structure Window where
  page : UInt64
  size : UInt64
  deriving DecidableEq, Repr

def Window.offset (w : Window) : UInt64 :=
  UInt64.ofNat (min ((w.page.toNat - 1) * w.size.toNat) uint64Max)

@[simp] theorem Window.toNat_offset (w : Window) :
    w.offset.toNat = min ((w.page.toNat - 1) * w.size.toNat) uint64Max :=
  UInt64.toNat_ofNat_of_lt' (Nat.lt_of_le_of_lt (Nat.min_le_right ..) (by decide))

/-- The integer part of a finite number of at least one, as far as 64 bits hold it. -/
def readPositive? (raw : String) : Option UInt64 :=
  ((Binary64.read? (Text.strip raw).toList).bind Binary64.floor?).bind fun n =>
    if n = 0 then none else some (UInt64.ofNat (min n uint64Max))

namespace PageLimits

/-- At least one row fits a page, whatever the limits say. -/
def cap (limits : PageLimits) : UInt64 :=
  max limits.greatest 1

def requestedSize (limits : PageLimits) (params : Parameters) : UInt64 :=
  ((params.get? "pageSize").bind readPositive?).getD (max limits.default 1)

def requestedPage (params : Parameters) : UInt64 :=
  ((params.get? "page").bind readPositive?).getD 1

def resolve (limits : PageLimits) (params : Parameters) : Traced Window := do
  let requested := limits.requestedSize params
  if requested > limits.cap then
    Traced.note (.pageSizeCapped requested limits.cap)
  return { page := requestedPage params, size := min requested limits.cap }

end PageLimits

structure PageSummary where
  page : UInt64
  size : UInt64
  total : UInt64
  totalPages : UInt64
  hasNext : Bool
  deriving DecidableEq, Repr

def pagesNeeded (total size : UInt64) : UInt64 :=
  if total % size = 0 then total / size else total / size + 1

def PageSummary.of (w : Window) (total : UInt64) : PageSummary :=
  let size := max w.size 1
  { page := w.page
    size := size
    total := total
    totalPages := pagesNeeded total size
    hasNext := saturatingMul w.page size < total }

theorem toNat_div_add_one {total size : UInt64} (h : total % size ≠ 0) :
    (total / size + 1).toNat = total.toNat / size.toNat + 1 := by
  have hne : size.toNat ≠ 1 := by
    intro hone
    apply h
    rw [← UInt64.toNat_inj, UInt64.toNat_mod, hone, Nat.mod_one]
    rfl
  -- pages of one row leave no rest, so the quotient is no more than half of the total
  have hhalf : total.toNat / size.toNat ≤ total.toNat / 2 := by
    rcases Nat.eq_zero_or_pos size.toNat with hzero | hpos
    · simp [hzero]
    · exact Nat.div_le_div_left (by omega) (by decide)
  have hmax := total.toNat_lt
  rw [UInt64.toNat_add, UInt64.toNat_div]
  exact Nat.mod_eq_of_lt (by change _ + 1 < _; omega)

theorem toNat_pagesNeeded (total size : UInt64) :
    (pagesNeeded total size).toNat =
      total.toNat / size.toNat + if total.toNat % size.toNat = 0 then 0 else 1 := by
  have hzero : total % size = 0 ↔ total.toNat % size.toNat = 0 := by
    rw [← UInt64.toNat_inj, UInt64.toNat_mod]
    rfl
  unfold pagesNeeded
  by_cases hr : total.toNat % size.toNat = 0
  · rw [if_pos (hzero.2 hr), if_pos hr, UInt64.toNat_div]
    rfl
  · rw [if_neg (mt hzero.1 hr), if_neg hr, toNat_div_add_one (mt hzero.1 hr)]

theorem lt_pagesNeeded_iff {total size : UInt64} (hs : 0 < size.toNat) (p : Nat) :
    p < (pagesNeeded total size).toNat ↔ p * size.toNat < total.toNat := by
  rw [toNat_pagesNeeded]
  by_cases hr : total.toNat % size.toNat = 0
  · have hfull : total.toNat / size.toNat * size.toNat = total.toNat :=
      Nat.div_mul_cancel (Nat.dvd_of_mod_eq_zero hr)
    rw [if_pos hr, Nat.add_zero, ← Nat.mul_lt_mul_right hs, hfull]
  · have hne : p * size.toNat ≠ total.toNat := fun h => hr (by rw [← h, Nat.mul_mod_left])
    rw [if_neg hr, Nat.lt_succ_iff, Nat.le_div_iff_mul_le hs]
    omega

namespace PageSummary

theorem hasNext_iff (w : Window) (total : UInt64) :
    (PageSummary.of w total).hasNext = true ↔
      w.page.toNat * max w.size.toNat 1 < total.toNat := by
  have htotal : total.toNat ≤ uint64Max := Nat.le_pred_of_lt total.toNat_lt
  simp only [PageSummary.of, decide_eq_true_eq, UInt64.lt_iff_toNat_lt, toNat_saturatingMul,
    toNat_max, UInt64.toNat_one]
  omega

theorem lt_totalPages_iff (w : Window) (total : UInt64) (p : Nat) :
    p < (PageSummary.of w total).totalPages.toNat ↔ p * max w.size.toNat 1 < total.toNat := by
  have hsize : (max w.size 1).toNat = max w.size.toNat 1 := toNat_max ..
  have hpos : 0 < (max w.size 1).toNat := by omega
  rw [← hsize]
  exact lt_pagesNeeded_iff hpos p

end PageSummary
end Listing
