import Listing.Notice
import Listing.Parameters
import Listing.Sql.Clause

set_option autoImplicit false

namespace Listing

open Sql

structure EqualityRule where
  key : String
  column : String
  kind : Kind
  deriving DecidableEq, Repr

namespace EqualityRule

def clause (rule : EqualityRule) (value : Value) : Clause :=
  { text := String.ofList (rule.column.toList ++ " = ?".toList), values := [value] }

def apply (found : Parameters) (rule : EqualityRule) : Traced (List Clause) :=
  match found.get? rule.key with
  | none => pure []
  | some raw =>
    match rule.kind.read? raw with
    | some value => pure [rule.clause value]
    | none => do
      Traced.note (.equalityUnreadable rule.key rule.kind)
      return []

def applyAll (rules : List EqualityRule) (found : Parameters) : Traced (List Clause) :=
  Traced.collect (apply found) rules

theorem get?_pick_key {rules : List EqualityRule} {rule : EqualityRule} (h : rule ∈ rules)
    (params : Parameters) :
    (params.pick (rules.map (·.key))).get? rule.key = params.stripped? rule.key := by
  rw [Parameters.get?_pick, if_pos (List.mem_map_of_mem h)]

theorem value_apply (found : Parameters) (rule : EqualityRule) :
    (apply found rule).value =
      (((found.get? rule.key).bind rule.kind.read?).map rule.clause).toList := by
  unfold apply
  cases hg : found.get? rule.key with
  | none => rfl
  | some raw => cases hr : rule.kind.read? raw <;> simp [hr]

theorem value_applyAll (rules : List EqualityRule) (found : Parameters) :
    (applyAll rules found).value =
      rules.filterMap fun rule => ((found.get? rule.key).bind rule.kind.read?).map rule.clause := by
  rw [applyAll, Traced.value_collect]
  induction rules with
  | nil => rfl
  | cons rule rules ih =>
    rw [List.flatMap_cons, value_apply, List.filterMap_cons, ih]
    cases (found.get? rule.key).bind rule.kind.read? <;> rfl

theorem isEmpty_of_mem_applyAll {rules : List EqualityRule} {found : Parameters} {c : Clause}
    (h : c ∈ (applyAll rules found).value) : c.isEmpty = false := by
  rw [value_applyAll] at h
  obtain ⟨rule, -, hc⟩ := List.mem_filterMap.1 h
  obtain ⟨v, -, rfl⟩ := Option.map_eq_some_iff.1 hc
  simp [clause, Clause.isEmpty]

end EqualityRule
end Listing
