import Listing.Paging
import Listing.Sql.Statement

/-!
A walk through the pages of a listing. The last two values of a page's statement say which rows the
database returns. They are clamped to what 64 bits hold, with sign or without, and yet on a result
of any size that can be counted each page returns its own rows: all pages together return every row
once, in order, and a page has a next one just if rows are left after it.
-/

set_option autoImplicit false

universe u

namespace Listing

open Sql Numeric

/-- The rows that a database returns for a statement, out of all that meet its condition, in order:
it passes over as many as the last value says and returns at most as many as the value before it.
Negative values have no agreed meaning. -/
def Sql.Statement.rows? {α : Type u} (s : Statement) (all : List α) : Option (List α) :=
  match s.values.reverse with
  | .integer offset :: .integer limit :: _ =>
    if 0 ≤ limit.toInt ∧ 0 ≤ offset.toInt then
      some ((all.drop offset.toInt.toNat).take limit.toInt.toNat)
    else none
  | _ => none

/-- The rows whose number, counted from zero, is at least `low` and less than `high`. -/
def rowsBetween {α : Type u} (low high : Nat) (all : List α) : List α :=
  (all.zipIdx.filter fun p => low ≤ p.2 && p.2 < high).map Prod.fst

variable {α : Type u}

theorem map_filter_zipIdx (low high start : Nat) (all : List α) :
    ((all.zipIdx start).filter fun p => low ≤ p.2 && p.2 < high).map Prod.fst =
      (all.drop (low - start)).take (high - max low start) := by
  induction all generalizing start with
  | nil => simp
  | cons a all ih =>
    rw [List.zipIdx_cons, List.filter_cons]
    by_cases hlow : start < low
    · have hdrop : low - start = low - (start + 1) + 1 := by omega
      have hmax : max low start = max low (start + 1) := by omega
      rw [if_neg (by simp; omega), ih, hdrop, List.drop_succ_cons, hmax]
    by_cases hhigh : start < high
    · have hdrop : low - start = 0 ∧ low - (start + 1) = 0 := by omega
      have htake : high - max low start = high - max low (start + 1) + 1 := by omega
      rw [if_pos (by simp; omega), List.map_cons, ih, hdrop.1, hdrop.2, htake]
      rfl
    · have htake : high - max low start = 0 ∧ high - max low (start + 1) = 0 := by omega
      rw [if_neg (by simp; omega), ih, htake.1, htake.2, List.take_zero, List.take_zero]

theorem rowsBetween_eq (low high : Nat) (all : List α) :
    rowsBetween low high all = (all.drop low).take (high - low) := by
  rw [rowsBetween, map_filter_zipIdx, Nat.sub_zero, Nat.max_eq_left (Nat.zero_le low)]

theorem rowsBetween_eq_nil_iff {low high : Nat} (h : low < high) (all : List α) :
    rowsBetween low high all = [] ↔ all.length ≤ low := by
  rw [rowsBetween_eq, List.take_eq_nil_iff, List.drop_eq_nil_iff]
  omega

theorem drop_min_of_length_le {all : List α} {m : Nat} (h : all.length ≤ m) (n : Nat) :
    all.drop (min n m) = all.drop n := by
  rcases Nat.le_total n m with hn | hn
  · rw [Nat.min_eq_left hn]
  · rw [Nat.min_eq_right hn, List.drop_of_length_le h, List.drop_of_length_le (by omega)]

theorem take_min_of_length_le {all : List α} {m : Nat} (h : all.length ≤ m) (n : Nat) :
    all.take (min n m) = all.take n := by
  rcases Nat.le_total n m with hn | hn
  · rw [Nat.min_eq_left hn]
  · rw [Nat.min_eq_right hn, List.take_of_length_le h, List.take_of_length_le (by omega)]

theorem toInt_ofNat_min (n : Nat) :
    (Int64.ofNat (min n int64Max)).toInt = (min n int64Max : Nat) :=
  Int64.toInt_ofNat_of_lt (Nat.lt_of_le_of_lt (Nat.min_le_right ..) (by decide))

theorem rows?_page (d : Dialect) (select : String) (r : Restriction) (orderBy : String)
    (limit offset : UInt64) {all : List α} (h : all.length ≤ int64Max) :
    (Statement.page d select r orderBy limit offset).rows? all =
      some ((all.drop offset.toNat).take limit.toNat) := by
  have hdrop : (all.drop offset.toNat).length ≤ int64Max := by rw [List.length_drop]; omega
  have hlimit := toInt_ofNat_min limit.toNat
  have hoffset := toInt_ofNat_min offset.toNat
  simp only [Statement.rows?, Statement.page, Value.ofCount, List.reverse_append,
    List.reverse_cons, List.reverse_nil, List.nil_append, List.cons_append, hlimit, hoffset,
    Int.toNat_natCast]
  rw [if_pos ⟨Int.natCast_nonneg _, Int.natCast_nonneg _⟩, drop_min_of_length_le h,
    take_min_of_length_le hdrop]

theorem rows?_window (d : Dialect) (select : String) (r : Restriction) (orderBy : String)
    {w : Window} (hp : 1 ≤ w.page) {all : List α} (h : all.length ≤ int64Max) :
    (Statement.page d select r orderBy w.size w.offset).rows? all =
      some (rowsBetween ((w.page.toNat - 1) * w.size.toNat) (w.page.toNat * w.size.toNat) all) := by
  have hpage : 1 ≤ w.page.toNat := UInt64.le_iff_toNat_le.1 hp
  have hsize : w.page.toNat * w.size.toNat - (w.page.toNat - 1) * w.size.toNat = w.size.toNat := by
    rw [← Nat.sub_mul, Nat.sub_sub_self hpage, Nat.one_mul]
  have hmax : all.length ≤ uint64Max := Nat.le_trans h (by decide)
  rw [rows?_page d select r orderBy w.size w.offset h, rowsBetween_eq, hsize, Window.toNat_offset,
    drop_min_of_length_le hmax]

theorem flatMap_rowsBetween (size pages : Nat) (all : List α) :
    ((List.range' 1 pages).flatMap fun p => rowsBetween ((p - 1) * size) (p * size) all) =
      all.take (pages * size) := by
  induction pages with
  | zero => simp
  | succ pages ih =>
    have hpage : rowsBetween (pages * size) ((pages + 1) * size) all =
        (all.drop (pages * size)).take size := by
      rw [rowsBetween_eq, ← Nat.sub_mul, Nat.add_sub_cancel_left, Nat.one_mul]
    have hlast : 1 + 1 * pages = pages + 1 := by omega
    calc
      _ = all.take (pages * size) ++ rowsBetween (pages * size) ((pages + 1) * size) all := by
        rw [List.range'_concat, List.flatMap_append, ih, hlast]
        simp
      _ = all.take ((pages + 1) * size) := by
        rw [hpage, ← List.take_add, Nat.succ_mul]

theorem flatMap_rowsBetween_totalPages {all : List α} {total : UInt64}
    (ht : total.toNat = all.length) {w : Window} (hs : 1 ≤ w.size) :
    ((List.range' 1 (PageSummary.of w total).totalPages.toNat).flatMap fun p =>
      rowsBetween ((p - 1) * w.size.toNat) (p * w.size.toNat) all) = all := by
  have hsize : 1 ≤ w.size.toNat := UInt64.le_iff_toNat_le.1 hs
  have hlast := PageSummary.lt_totalPages_iff w total (PageSummary.of w total).totalPages.toNat
  rw [Nat.max_eq_left hsize, ht] at hlast
  rw [flatMap_rowsBetween, List.take_of_length_le (by omega)]

theorem exists_later_rows_iff {all : List α} (h : all.length ≤ int64Max) {size : Nat}
    (hs : 1 ≤ size) (page : UInt64) :
    (∃ later : UInt64, page < later ∧
        rowsBetween ((later.toNat - 1) * size) (later.toNat * size) all ≠ []) ↔
      page.toNat * size < all.length := by
  have hrows (p : Nat) (hp : 1 ≤ p) :
      rowsBetween ((p - 1) * size) (p * size) all ≠ [] ↔ (p - 1) * size < all.length := by
    have hlt : (p - 1) * size < p * size := Nat.mul_lt_mul_of_pos_right (by omega) hs
    rw [Ne, rowsBetween_eq_nil_iff hlt, Nat.not_le]
  constructor
  · rintro ⟨later, hlater, hne⟩
    have hnat : page.toNat < later.toNat := UInt64.lt_iff_toNat_lt.1 hlater
    have hbefore : page.toNat * size ≤ (later.toNat - 1) * size :=
      Nat.mul_le_mul_right size (by omega)
    have hfirst := (hrows later.toNat (by omega)).1 hne
    omega
  · intro hleft
    have hbound : page.toNat ≤ page.toNat * size := Nat.le_mul_of_pos_right _ hs
    have hmax : int64Max + 1 < UInt64.size := by decide
    have hnext : (UInt64.ofNat (page.toNat + 1)).toNat = page.toNat + 1 :=
      UInt64.toNat_ofNat_of_lt' (by omega)
    refine ⟨UInt64.ofNat (page.toNat + 1), ?_, ?_⟩
    · rw [UInt64.lt_iff_toNat_lt, hnext]
      omega
    · rw [hnext, hrows (page.toNat + 1) (by omega)]
      exact hleft

theorem walk_returns_every_row_once (rows : List α) (h : rows.length ≤ int64Max) (size : UInt64)
    (hs : 1 ≤ size) (d : Dialect) (select : String) (r : Restriction) (orderBy : String) :
    let window (page : UInt64) : Window := { page, size }
    let returned (page : UInt64) :=
      (Statement.page d select r orderBy size (window page).offset).rows? rows
    let summary (page : UInt64) := PageSummary.of (window page) (UInt64.ofNat rows.length)
    (∀ page, 1 ≤ page → returned page =
      some (rowsBetween ((page.toNat - 1) * size.toNat) (page.toNat * size.toNat) rows)) ∧
    (∀ page, ∃ pages : List (List α),
      ((List.range' 1 (summary page).totalPages.toNat).map fun p => returned (UInt64.ofNat p)) =
        pages.map some ∧ pages.flatten = rows) ∧
    ∀ page, 1 ≤ page →
      ((summary page).hasNext = true ↔
        ∃ later found, page < later ∧ returned later = some found ∧ found ≠ []) ∧
      ((summary page).hasNext = true ↔ page < (summary page).totalPages) := by
  intro window returned summary
  have hsize : 1 ≤ size.toNat := UInt64.le_iff_toNat_le.1 hs
  have hmax : int64Max < UInt64.size := by decide
  have htotal : (UInt64.ofNat rows.length).toNat = rows.length :=
    UInt64.toNat_ofNat_of_lt' (by omega)
  have hreturned (page : UInt64) (hp : 1 ≤ page) : returned page =
      some (rowsBetween ((page.toNat - 1) * size.toNat) (page.toNat * size.toNat) rows) :=
    rows?_window d select r orderBy (w := window page) hp h
  refine ⟨hreturned, ?_, ?_⟩
  · intro page
    have hall := flatMap_rowsBetween_totalPages htotal (w := window page) hs
    rw [List.flatMap_def] at hall
    refine ⟨_, ?_, hall⟩
    rw [List.map_map]
    apply List.map_congr_left
    intro p hp
    have hbounds := List.mem_range'_1.1 hp
    have hlast := (summary page).totalPages.toNat_lt
    have hp64 : (UInt64.ofNat p).toNat = p :=
      UInt64.toNat_ofNat_of_lt' (Nat.lt_of_le_of_lt (by omega) hlast)
    have hfirst : 1 ≤ UInt64.ofNat p := by
      rw [UInt64.le_iff_toNat_le, hp64]
      exact hbounds.1
    rw [hreturned _ hfirst, hp64]
    rfl
  · intro page hp
    have hleft := PageSummary.hasNext_iff (window page) (UInt64.ofNat rows.length)
    have hpages :=
      PageSummary.lt_totalPages_iff (window page) (UInt64.ofNat rows.length) page.toNat
    rw [Nat.max_eq_left hsize, htotal] at hleft hpages
    have hlater (later : UInt64) (hlt : page < later) := hreturned later
      (UInt64.le_trans hp (UInt64.le_of_lt hlt))
    constructor
    · rw [hleft, ← exists_later_rows_iff h hsize page]
      constructor
      · rintro ⟨later, hlt, hne⟩
        exact ⟨later, _, hlt, hlater later hlt, hne⟩
      · rintro ⟨later, found, hlt, hfound, hne⟩
        rw [hlater later hlt] at hfound
        exact ⟨later, hlt, Option.some.inj hfound ▸ hne⟩
    · rw [hleft, UInt64.lt_iff_toNat_lt]
      exact hpages.symm

theorem walk_returns_every_row_once_five :
    let rows := ["a", "b", "c", "d", "e"]
    let third : Window := { page := 3, size := 2 }
    let statement := Statement.page .sqlite "SELECT n FROM t" {} "n ASC" third.size third.offset
    rows.length ≤ int64Max ∧ 1 ≤ third.size ∧ statement.rows? rows = some ["e"] ∧
      (PageSummary.of third 5).hasNext = false := by
  have h : ["a", "b", "c", "d", "e"].length ≤ int64Max := by decide
  have hs : (1 : UInt64) ≤ 2 := by decide
  have hwalk := walk_returns_every_row_once ["a", "b", "c", "d", "e"] h 2 hs .sqlite
    "SELECT n FROM t" {} "n ASC"
  refine ⟨h, hs, hwalk.1 3 (by decide), ?_⟩
  have hnext := (hwalk.2.2 3 (by decide)).2
  exact Bool.eq_false_iff.2 fun hn => absurd (hnext.1 hn) (by decide)

end Listing
