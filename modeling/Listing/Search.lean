import Listing.Parameters
import Listing.Sql.Clause
import Listing.Sql.Like

set_option autoImplicit false

namespace Listing.Search

open Sql

def term? (params : Parameters) : Option String :=
  params.stripped? "search"

def pattern (term : String) : Value :=
  .text (String.ofList (Like.containing term.toList))

def matchText (column : String) : List Char :=
  column.toList ++ " LIKE ?".toList

/-- Without a term or without columns there is nothing to search, and the clause is empty. -/
def clause (columns : List String) (term : Option String) : Clause :=
  match term with
  | none => Clause.empty
  | some term =>
    if columns.isEmpty || term.isEmpty then Clause.empty
    else
      { text := String.ofList
          ('(' :: " OR ".toList.intercalate (columns.map matchText) ++ [')'])
        values := columns.map fun _ => pattern term }

theorem clause_of_ne {columns : List String} {term : String} (hc : columns ≠ [])
    (ht : term ≠ "") :
    clause columns (some term) =
      { text := String.ofList
          ('(' :: " OR ".toList.intercalate (columns.map matchText) ++ [')'])
        values := columns.map fun _ => pattern term } := by
  have he : ¬ (columns.isEmpty || term.isEmpty) = true := by simp [hc, ht]
  exact if_neg he

theorem clause_of_eq {columns : List String} {term : String} (h : columns = [] ∨ term = "") :
    clause columns (some term) = Clause.empty := by
  have he : (columns.isEmpty || term.isEmpty) = true := by simpa using h
  exact if_pos he

end Listing.Search
