import Listing.Notice
import Listing.Parameters

set_option autoImplicit false

namespace Listing

inductive Direction
  | ascending
  | descending
  deriving DecidableEq, Repr

namespace Direction

def sql : Direction → String
  | ascending => "ASC"
  | descending => "DESC"

/-- Only letters of ASCII have two cases here. -/
def read? (raw : String) : Option Direction :=
  let word := raw.toList.map Char.toLower
  if word = "asc".toList then some ascending
  else if word = "desc".toList then some descending
  else none

end Direction

structure Order where
  column : String
  direction : Direction
  deriving DecidableEq, Repr

def Order.text (o : Order) : String :=
  String.ofList (o.column.toList ++ ' ' :: o.direction.sql.toList)

/-- Sortable columns by name, of which the first of a name counts, and the order taken where a
request names none of them. -/
structure SortRules where
  columns : List (String × String) := []
  fallback : String
  direction : Direction := .descending
  deriving DecidableEq, Repr

namespace SortRules

def column? (rules : SortRules) (name : String) : Option String :=
  rules.columns.lookup name

/-- A fallback that is not listed is itself the column. -/
def fallbackColumn (rules : SortRules) : String :=
  (rules.column? rules.fallback).getD rules.fallback

def resolveColumn (rules : SortRules) (params : Parameters) : Traced String :=
  match params.get? "sortField" with
  | none => pure rules.fallbackColumn
  | some name =>
    match rules.column? name with
    | some column => pure column
    | none => do
      Traced.note (.sortFieldUnknown name)
      return rules.fallbackColumn

def resolveDirection (rules : SortRules) (params : Parameters) : Direction :=
  ((params.get? "sortOrder").bind Direction.read?).getD rules.direction

def resolve (rules : SortRules) (params : Parameters) : Traced Order := do
  let column ← rules.resolveColumn params
  return { column, direction := rules.resolveDirection params }

theorem mem_columns_of_column? {rules : SortRules} {name column : String}
    (h : rules.column? name = some column) : (name, column) ∈ rules.columns := by
  obtain ⟨before, after, he, -⟩ := List.lookup_eq_some_iff.1 h
  rw [he]
  simp

theorem column_resolve (rules : SortRules) (params : Parameters) :
    (rules.resolve params).value.column =
      ((params.get? "sortField").bind rules.column?).getD rules.fallbackColumn := by
  simp only [resolve, Traced.value_bind, Traced.value_pure, resolveColumn]
  cases params.get? "sortField" with
  | none => rfl
  | some name => cases hc : rules.column? name <;> simp [hc]

theorem column_resolve_listed (rules : SortRules) (params : Parameters) :
    (rules.resolve params).value.column = rules.fallback ∨
      ∃ name, (name, (rules.resolve params).value.column) ∈ rules.columns := by
  rw [column_resolve]
  cases hr : (params.get? "sortField").bind rules.column? with
  | some column =>
    obtain ⟨name, -, hc⟩ := Option.bind_eq_some_iff.1 hr
    exact .inr ⟨name, mem_columns_of_column? hc⟩
  | none =>
    rw [Option.getD_none, fallbackColumn]
    cases hc : rules.column? rules.fallback with
    | some column => exact .inr ⟨rules.fallback, mem_columns_of_column? hc⟩
    | none => exact .inl rfl

end SortRules
end Listing
