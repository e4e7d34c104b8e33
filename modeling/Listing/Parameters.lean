import Listing.Form
import Listing.Table
import Listing.Text.Blank

set_option autoImplicit false

namespace Listing

abbrev Parameters := Table String

namespace Parameters

def ofQueryString (query : String) : Parameters :=
  { entries := Form.readPairs query.toList }

/-- The text of a parameter without surrounding blanks, unless nothing is left of it. -/
def stripped? (params : Parameters) (name : String) : Option String :=
  (params.get? name).bind fun raw =>
    let text := Text.strip raw
    if text.isEmpty then none else some text

theorem ne_empty_of_stripped? {params : Parameters} {name text : String}
    (h : params.stripped? name = some text) : text ≠ "" := by
  obtain ⟨raw, -, ht⟩ := Option.bind_eq_some_iff.1 h
  rintro rfl
  by_cases he : (Text.strip raw).isEmpty = true
  · simp [he] at ht
  · simp only [he, Bool.false_eq_true, if_false, Option.some.injEq] at ht
    exact he (by rw [ht]; rfl)

theorem toList_ne_nil_of_stripped? {params : Parameters} {name text : String}
    (h : params.stripped? name = some text) : text.toList ≠ [] :=
  mt String.toList_eq_nil_iff.1 (ne_empty_of_stripped? h)

def pick (params : Parameters) (names : List String) : Parameters :=
  { entries := names.filterMap fun name => (params.stripped? name).map (name, ·) }

theorem lookup_filterMap (g : String → Option String) (names : List String) (name : String) :
    (names.filterMap fun n => (g n).map (n, ·)).lookup name =
      if name ∈ names then g name else none := by
  induction names with
  | nil => rfl
  | cons n names ih =>
    by_cases hn : name = n
    · subst hn
      cases hg : g name <;> simp [hg, ih]
    · have hb : (name == n) = false := by simpa using hn
      cases hg : g n <;> simp [hg, ih, hn, hb, List.lookup_cons]

@[simp] theorem get?_pick (params : Parameters) (names : List String) (name : String) :
    (params.pick names).get? name = if name ∈ names then params.stripped? name else none := by
  rw [Table.get?, pick, ← List.filterMap_reverse, lookup_filterMap]
  simp

end Parameters
end Listing
