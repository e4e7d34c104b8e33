import Listing.Resource

set_option autoImplicit false

namespace Listing

open Sql

namespace Resource

def comparisonText (column operator : String) : List Char :=
  column.toList ++ ' ' :: operator.toList ++ " ?".toList

def groupText (columns : List String) : List Char :=
  '(' :: " OR ".toList.intercalate (columns.map fun column => comparisonText column "LIKE") ++ [')']

/-- Conditions that the resource can state together: some of its equality rules in their order, at
most one group over all searched columns, and any comparisons of registered columns. -/
def CanState (r : Resource) (texts : List (List Char)) : Prop :=
  ∃ (rules : List EqualityRule) (groups : List (List Char)) (filters : List (String × String)),
    rules.Sublist r.equality ∧
    (groups = [] ∨ r.searchColumns ≠ [] ∧ groups = [groupText r.searchColumns]) ∧
    (∀ filter ∈ filters, filter.2 ∈ ["=", "LIKE", ">=", "<="] ∧
      ∃ name field, r.fields.get? name = some field ∧ field.column = filter.1) ∧
    texts = rules.map (fun rule => comparisonText rule.column "=") ++ groups ++
      filters.map fun filter => comparisonText filter.1 filter.2

def whereText (texts : List (List Char)) : List Char :=
  if texts = [] then [] else " WHERE ".toList ++ " AND ".toList.intercalate texts

def CanOrderBy (r : Resource) (text : List Char) : Prop :=
  ∃ column direction : String,
    (column = r.sorting.fallback ∨ ∃ name, (name, column) ∈ r.sorting.columns) ∧
    direction ∈ ["ASC", "DESC"] ∧
    text = " ORDER BY ".toList ++ column.toList ++ ' ' :: direction.toList

theorem exists_sublist_filterMap {α β γ : Type} {f : α → Option β} {g : β → γ} {k : α → γ}
    (h : ∀ a b, f a = some b → g b = k a) (as : List α) :
    ∃ picked : List α, picked.Sublist as ∧ (as.filterMap f).map g = picked.map k := by
  induction as with
  | nil => exact ⟨[], .slnil, rfl⟩
  | cons a as ih =>
    obtain ⟨picked, hp, he⟩ := ih
    cases hf : f a with
    | none => exact ⟨picked, hp.cons a, by rw [List.filterMap_cons_none hf, he]⟩
    | some b =>
      refine ⟨a :: picked, hp.cons_cons a, ?_⟩
      rw [List.filterMap_cons_some hf, List.map_cons, List.map_cons, h a b hf, he]

theorem equality_texts (rules : List EqualityRule) (found : Parameters) :
    ∃ picked : List EqualityRule, picked.Sublist rules ∧
      ((EqualityRule.applyAll rules found).value.map fun c => c.text.toList) =
        picked.map fun rule => comparisonText rule.column "=" := by
  rw [EqualityRule.value_applyAll]
  apply exists_sublist_filterMap
  intro rule c hc
  obtain ⟨v, -, rfl⟩ := Option.map_eq_some_iff.1 hc
  simp [EqualityRule.clause, comparisonText]

theorem search_texts (columns : List String) (term : Option String) :
    ∃ groups, (groups = [] ∨ columns ≠ [] ∧ groups = [groupText columns]) ∧
      ((Restriction.taken [Search.clause columns term]).map fun c => c.text.toList) = groups := by
  cases term with
  | none => exact ⟨[], .inl rfl, rfl⟩
  | some term =>
    by_cases ht : term = ""
    · exact ⟨[], .inl rfl, by rw [Search.clause_of_eq (.inr ht)]; rfl⟩
    by_cases hc : columns = []
    · exact ⟨[], .inl rfl, by rw [Search.clause_of_eq (.inl hc)]; rfl⟩
    refine ⟨[groupText columns], .inr ⟨hc, rfl⟩, ?_⟩
    have hm : Search.matchText = fun column => comparisonText column "LIKE" := by
      funext column
      simp [Search.matchText, comparisonText]
    rw [Search.clause_of_ne hc ht, hm]
    simp [Restriction.taken, Clause.isEmpty, groupText]

theorem filter_texts (conditions : List Condition) :
    ((conditions.map Condition.clause).map fun c => c.text.toList) =
      (conditions.map fun c => (c.column, c.comparison.sql)).map fun filter =>
        comparisonText filter.1 filter.2 := by
  simp [Condition.clause, Condition.text, comparisonText, Function.comp_def]

theorem sql_mem_operators (c : Comparison) : c.sql ∈ ["=", "LIKE", ">=", "<="] := by
  cases c <;> decide

theorem restriction_texts (r : Resource) (params : Parameters) :
    r.CanState ((r.resolve params).value.restriction.texts.map String.toList) := by
  obtain ⟨rules, hrules, he⟩ :=
    equality_texts r.equality (params.pick (r.equality.map (·.key)))
  obtain ⟨groups, hgroups, hs⟩ := search_texts r.searchColumns (Search.term? params)
  let conditions := (Filter.conditions r.fields params).value
  refine ⟨rules, groups, conditions.map fun c => (c.column, c.comparison.sql), hrules, hgroups,
    ?_, ?_⟩
  · intro filter hfilter
    obtain ⟨c, hc, rfl⟩ := List.mem_map.1 hfilter
    exact ⟨sql_mem_operators c.comparison, Filter.registered_of_mem_conditions hc⟩
  · rw [restriction_resolve, Restriction.pushAll_eq, taken_clauses, ← he, ← hs, ← filter_texts]
    simp [Function.comp_def, conditions]

theorem whereText_eq_render (r : Restriction) :
    r.render = whereText (r.texts.map String.toList) := by
  unfold Restriction.render Restriction.conjunction whereText
  simp only [List.isEmpty_iff]

theorem order_text (r : Resource) (params : Parameters) :
    r.CanOrderBy (" ORDER BY ".toList ++ (r.resolve params).value.order.text.toList) := by
  refine ⟨(r.resolve params).value.order.column, (r.resolve params).value.order.direction.sql,
    ?_, ?_, ?_⟩
  · exact r.sorting.column_resolve_listed params
  · cases (r.resolve params).value.order.direction <;> decide
  · simp [Order.text]

/-- Both statements of a request, up to the adaptation to a dialect, are texts of the resource. -/
theorem statements_come_from_resource (r : Resource) (params : Parameters) :
    let selection := (r.resolve params).value
    ∃ texts order, r.CanState texts ∧ r.CanOrderBy order ∧
      (r.pageStatement .mysql selection).sql.toList =
        r.select.toList ++ whereText texts ++ order ++ " LIMIT ? OFFSET ?".toList ∧
      (r.countStatement .mysql selection).sql.toList = r.count.toList ++ whereText texts := by
  refine ⟨_, _, restriction_texts r params, order_text r params, ?_, ?_⟩
  · rw [← whereText_eq_render]
    simp [pageStatement, Statement.page, Dialect.adapt]
  · rw [← whereText_eq_render]
    simp [countStatement, Statement.count, Dialect.adapt]

end Resource
end Listing
