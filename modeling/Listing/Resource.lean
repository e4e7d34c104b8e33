import Listing.Equality
import Listing.Filter
import Listing.Paging
import Listing.Search
import Listing.Sorting
import Listing.Sql.Statement

set_option autoImplicit false

namespace Listing

open Sql

structure Resource where
  name : String
  select : String
  count : String
  sorting : SortRules
  limits : PageLimits := {}
  equality : List EqualityRule := []
  searchColumns : List String := []
  fields : FieldTable := {}

structure Selection where
  window : Window
  term : Option String
  order : Order
  restriction : Restriction

namespace Resource

/-- Equality rules come first in the restriction, then the search, then the structured filters;
notices arise in the order in which the parts are resolved. -/
def resolve (r : Resource) (params : Parameters) : Traced Selection := do
  let window ← r.limits.resolve params
  let conditions ← Filter.conditions r.fields params
  let order ← r.sorting.resolve params
  let equalities ← EqualityRule.applyAll r.equality (params.pick (r.equality.map (·.key)))
  let term := Search.term? params
  let equal : Restriction := Restriction.pushAll {} equalities
  let searched := equal.push (Search.clause r.searchColumns term)
  return {
    window, term, order
    restriction := searched.pushAll (Filter.lists conditions).clauses }

def clauses (r : Resource) (params : Parameters) : List Clause :=
  (EqualityRule.applyAll r.equality (params.pick (r.equality.map (·.key)))).value ++
    Search.clause r.searchColumns (Search.term? params) ::
      (Filter.conditions r.fields params).value.map Condition.clause

theorem restriction_resolve (r : Resource) (params : Parameters) :
    (r.resolve params).value.restriction = Restriction.pushAll {} (r.clauses params) := by
  rw [clauses, Restriction.pushAll_append, ← Filter.clauses_lists]
  rfl

theorem taken_clauses (r : Resource) (params : Parameters) :
    Restriction.taken (r.clauses params) =
      (EqualityRule.applyAll r.equality (params.pick (r.equality.map (·.key)))).value ++
        Restriction.taken [Search.clause r.searchColumns (Search.term? params)] ++
        (Filter.conditions r.fields params).value.map Condition.clause := by
  have he : Restriction.taken
      (EqualityRule.applyAll r.equality (params.pick (r.equality.map (·.key)))).value =
        (EqualityRule.applyAll r.equality (params.pick (r.equality.map (·.key)))).value :=
    Restriction.taken_eq_self fun _ hc => EqualityRule.isEmpty_of_mem_applyAll hc
  have hf : Restriction.taken ((Filter.conditions r.fields params).value.map Condition.clause) =
      (Filter.conditions r.fields params).value.map Condition.clause := by
    apply Restriction.taken_eq_self
    intro c hc
    obtain ⟨condition, -, rfl⟩ := List.mem_map.1 hc
    exact condition.isEmpty_clause
  rw [clauses, ← List.singleton_append, ← List.append_assoc, Restriction.taken_append,
    Restriction.taken_append, he, hf]

def pageStatement (r : Resource) (d : Dialect) (s : Selection) : Statement :=
  .page d r.select s.restriction s.order.text s.window.size s.window.offset

def countStatement (r : Resource) (d : Dialect) (s : Selection) : Statement :=
  .count d r.count s.restriction

end Resource
end Listing
