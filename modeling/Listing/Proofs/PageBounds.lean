import Listing.Proofs.PageWalk
import Listing.Resource
import Mathlib.Algebra.Group.Int.Defs
import Mathlib.Algebra.Group.Nat.Defs

set_option autoImplicit false

namespace Listing

open Sql Numeric

theorem one_le_of_readPositive {raw : String} {n : UInt64} (h : readPositive? raw = some n) :
    1 ≤ n.toNat := by
  obtain ⟨m, -, hm⟩ := Option.bind_eq_some_iff.1 h
  by_cases hzero : m = 0
  · simp [hzero] at hm
  · simp only [hzero, if_false, Option.some.injEq] at hm
    have hmax : uint64Max < UInt64.size := by decide
    have hfits : min m uint64Max < UInt64.size := by omega
    rw [← hm, UInt64.toNat_ofNat_of_lt' hfits]
    have hone : 1 ≤ uint64Max := by decide
    omega

theorem one_le_getD_readPositive (raw : Option String) {default : UInt64}
    (h : 1 ≤ default.toNat) : 1 ≤ ((raw.bind readPositive?).getD default).toNat := by
  cases hn : raw.bind readPositive? with
  | none => exact h
  | some n =>
    obtain ⟨text, -, hread⟩ := Option.bind_eq_some_iff.1 hn
    exact one_le_of_readPositive hread

namespace PageLimits

variable (limits : PageLimits) (params : Parameters)

@[simp] theorem toNat_cap : limits.cap.toNat = max limits.greatest.toNat 1 :=
  toNat_max ..

theorem one_le_requestedPage : 1 ≤ (requestedPage params).toNat :=
  one_le_getD_readPositive _ (Nat.le_refl 1)

theorem one_le_requestedSize : 1 ≤ (limits.requestedSize params).toNat := by
  refine one_le_getD_readPositive _ ?_
  rw [toNat_max]
  exact Nat.le_max_right ..

theorem value_resolve : (limits.resolve params).value =
    { page := requestedPage params, size := min (limits.requestedSize params) limits.cap } := by
  unfold resolve
  dsimp only
  split <;> rfl

theorem one_le_page : 1 ≤ (limits.resolve params).value.page.toNat := by
  rw [value_resolve]
  exact one_le_requestedPage params

theorem one_le_size : 1 ≤ (limits.resolve params).value.size.toNat := by
  have hsize := limits.one_le_requestedSize params
  simp only [value_resolve, toNat_min, toNat_cap]
  omega

theorem size_le : (limits.resolve params).value.size.toNat ≤ max 1 limits.greatest.toNat := by
  simp only [value_resolve, toNat_min, toNat_cap]
  omega

end PageLimits

theorem Window.toNat_offset_int {w : Window} (h : 1 ≤ w.page.toNat) :
    (w.offset.toNat : Int) = min (((w.page.toNat : Int) - 1) * w.size.toNat) (2 ^ 64 - 1) := by
  have hmax : uint64Max = 2 ^ 64 - 1 := by decide
  have hrows : (((w.page.toNat - 1) * w.size.toNat : Nat) : Int) =
      ((w.page.toNat : Int) - 1) * w.size.toNat := by
    rw [Int.natCast_mul, Int.natCast_sub h]
    rfl
  rw [w.toNat_offset, ← hrows]
  omega

theorem Search.term?_stripped {params : Parameters} {term : String}
    (h : Search.term? params = some term) :
    term ≠ "" ∧ (∀ c ∈ term.toList.head?, Text.isBlank c = false) ∧
      ∀ c ∈ term.toList.getLast?, Text.isBlank c = false := by
  obtain ⟨raw, -, hterm⟩ := Option.bind_eq_some_iff.1 h
  have hstrip : Text.strip raw = term := by
    by_cases he : (Text.strip raw).isEmpty = true
    · simp [he] at hterm
    · simpa [he] using hterm
  refine ⟨Parameters.ne_empty_of_stripped? h, ?_⟩
  rw [← hstrip, Text.toList_strip]
  exact ⟨Text.head?_stripChars _, Text.getLast?_stripChars _⟩

/-- How many rows a statement asks for and how many it passes over: its last two values. -/
def Sql.Statement.span? (s : Statement) : Option (Int64 × Int64) :=
  match s.values.reverse with
  | .integer offset :: .integer limit :: _ => some (limit, offset)
  | _ => none

theorem span?_page (d : Dialect) (select : String) (r : Restriction) (orderBy : String)
    (limit offset : UInt64) :
    (Statement.page d select r orderBy limit offset).span? =
      some (Int64.ofNat (min limit.toNat int64Max), Int64.ofNat (min offset.toNat int64Max)) := by
  simp [Statement.span?, Statement.page, Value.ofCount]

theorem toInt_ofNat_clamped (n : Nat) :
    (Int64.ofNat (min n int64Max)).toInt = min (n : Int) (2 ^ 63 - 1) := by
  have hmax : int64Max = 2 ^ 63 - 1 := by decide
  rw [toInt_ofNat_min]
  omega

theorem clamped_le_clamped {m n : Nat} (h : m ≤ n) :
    Int64.ofNat (min m int64Max) ≤ Int64.ofNat (min n int64Max) := by
  rw [Int64.le_iff_toInt_le, toInt_ofNat_clamped, toInt_ofNat_clamped]
  omega

theorem span?_page_mono {r r' : Resource} {d d' : Dialect} {s s' : Selection}
    {limit offset limit' offset' : Int64}
    (h : (r.pageStatement d s).span? = some (limit, offset))
    (h' : (r'.pageStatement d' s').span? = some (limit', offset')) :
    (s.window.size ≤ s'.window.size → limit ≤ limit') ∧
      (s.window.offset ≤ s'.window.offset → offset ≤ offset') := by
  rw [Resource.pageStatement, span?_page] at h h'
  simp only [Option.some.injEq, Prod.mk.injEq] at h h'
  obtain ⟨rfl, rfl⟩ := h
  obtain ⟨rfl, rfl⟩ := h'
  simp only [UInt64.le_iff_toNat_le]
  exact ⟨clamped_le_clamped, clamped_le_clamped⟩

/-- The bounds of the window that a request is given, and of the two integers that are bound for
it. The page before it has a number that can be computed, and the offset is as large as integers
of any size would make it, up to what 64 bits hold. -/
theorem window_stays_in_bounds (r : Resource) (params : Parameters) :
    let selection := (r.resolve params).value
    let window := selection.window
    (1 ≤ window.page ∧ 1 ≤ window.size ∧ window.size ≤ max 1 r.limits.greatest) ∧
    (window.page - 1).toNat + 1 = window.page.toNat ∧
    (window.offset.toNat : Int) =
      min (((window.page.toNat : Int) - 1) * window.size.toNat) (2 ^ 64 - 1) ∧
    (∀ term, selection.term = some term → term ≠ "" ∧
      (∀ c ∈ term.toList.head?, Text.isBlank c = false) ∧
      ∀ c ∈ term.toList.getLast?, Text.isBlank c = false) ∧
    (∀ d, ∃ limit offset, (r.pageStatement d selection).span? = some (limit, offset) ∧
      (1 ≤ limit.toInt ∧ limit.toInt ≤ 2 ^ 63 - 1) ∧
      (0 ≤ offset.toInt ∧ offset.toInt ≤ 2 ^ 63 - 1)) ∧
    ∀ (r' : Resource) (params' : Parameters) (d d' : Dialect) (limit offset limit' offset' : Int64),
      let selection' := (r'.resolve params').value
      (r.pageStatement d selection).span? = some (limit, offset) →
      (r'.pageStatement d' selection').span? = some (limit', offset') →
      (window.size ≤ selection'.window.size → limit ≤ limit') ∧
        (window.offset ≤ selection'.window.offset → offset ≤ offset') := by
  intro selection window
  have hpage : 1 ≤ window.page.toNat := r.limits.one_le_page params
  have hsize : 1 ≤ window.size.toNat := r.limits.one_le_size params
  have hgreatest : window.size.toNat ≤ max 1 r.limits.greatest.toNat := r.limits.size_le params
  have hone : (1 : UInt64) ≤ window.page := UInt64.le_iff_toNat_le.2 hpage
  refine ⟨⟨hone, UInt64.le_iff_toNat_le.2 hsize, ?_⟩, ?_, Window.toNat_offset_int hpage,
    fun term => Search.term?_stripped, fun d => ⟨_, _, span?_page .., ?_⟩,
    fun r' params' d d' limit offset limit' offset' => span?_page_mono⟩
  · rwa [UInt64.le_iff_toNat_le, toNat_max]
  · rw [UInt64.toNat_sub_of_le _ _ hone]
    exact Nat.sub_add_cancel hpage
  · rw [toInt_ofNat_clamped, toInt_ofNat_clamped]
    change 1 ≤ selection.window.size.toNat at hsize
    omega

theorem eq_totalPages_iff (w : Window) (total : UInt64) (n : Nat) :
    n = (PageSummary.of w total).totalPages.toNat ↔
      total.toNat ≤ n * max 1 w.size.toNat ∧
        (n = 0 ∨ (n - 1) * max 1 w.size.toNat < total.toNat) := by
  have hfull := PageSummary.lt_totalPages_iff w total n
  have hlast := PageSummary.lt_totalPages_iff w total (n - 1)
  rw [Nat.max_comm] at hfull hlast
  rw [← Nat.not_lt, ← hfull, ← hlast]
  omega

/-- The number of pages is the one that holds all rows and would not without its last page, and a
page has a next one just if rows are left after it. The size that is divided by is not zero, and
no sum or product is cut off but where the comparison that uses it allows for that. -/
theorem summary_is_exact (w : Window) (total : UInt64) :
    let summary := PageSummary.of w total
    let size := max 1 w.size.toNat
    (∀ n : Nat, n = summary.totalPages.toNat ↔
      total.toNat ≤ n * size ∧ (n = 0 ∨ (n - 1) * size < total.toNat)) ∧
    (summary.hasNext = true ↔ w.page < summary.totalPages) ∧
    (summary.hasNext = true ↔ w.page.toNat * size < total.toNat) ∧
    (summary.size ≠ 0 ∧ summary.size.toNat = size) ∧
    (total % summary.size ≠ 0 →
      (total / summary.size + 1).toNat = total.toNat / size + 1) ∧
    (saturatingMul w.page summary.size).toNat = min (w.page.toNat * size) (2 ^ 64 - 1) := by
  intro summary size
  have hsize : summary.size.toNat = size := (toNat_max ..).trans (Nat.max_comm ..)
  have hleft := PageSummary.hasNext_iff w total
  have hpages := PageSummary.lt_totalPages_iff w total w.page.toNat
  rw [Nat.max_comm] at hleft hpages
  refine ⟨eq_totalPages_iff w total, ?_, hleft, ⟨fun hzero => ?_, hsize⟩, fun hrest => ?_, ?_⟩
  · rw [hleft, UInt64.lt_iff_toNat_lt]
    exact hpages.symm
  · have hpos : 1 ≤ summary.size.toNat := hsize ▸ Nat.le_max_left ..
    simp [hzero] at hpos
  · rw [toNat_div_add_one hrest, hsize]
  · rw [toNat_saturatingMul, hsize]
    rfl

end Listing
