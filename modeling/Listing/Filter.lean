import Listing.Json.Value
import Listing.Notice
import Listing.Parameters
import Listing.Sql.Clause
import Listing.Sql.Like

set_option autoImplicit false

namespace Listing

open Sql Numeric

inductive Comparison
  | equal
  | like
  | atLeast
  | atMost
  deriving DecidableEq, Repr

namespace Comparison

def ofName : String → Comparison
  | "like" => like
  | "gte" => atLeast
  | "lte" => atMost
  | _ => equal

def sql : Comparison → String
  | equal => "="
  | like => "LIKE"
  | atLeast => ">="
  | atMost => "<="

end Comparison

structure Field where
  column : String
  comparison : Option Comparison := none
  deriving DecidableEq, Repr

abbrev FieldTable := Table Field

structure Condition where
  column : String
  comparison : Comparison
  value : Value
  deriving DecidableEq

namespace Condition

/-- The value that is bound: for `LIKE` the pattern of the texts that contain it. -/
def bound (c : Condition) : Value :=
  match c.comparison with
  | .like => .text (String.ofList (Like.containing c.value.chars))
  | _ => c.value

def text (c : Condition) : List Char :=
  c.column.toList ++ ' ' :: c.comparison.sql.toList ++ " ?".toList

def clause (c : Condition) : Clause :=
  { text := String.ofList c.text, values := [c.bound] }

@[simp] theorem isEmpty_clause (c : Condition) : c.clause.isEmpty = false := by
  simp [clause, text, Clause.isEmpty]

end Condition

structure Descriptor where
  field : String
  /-- Missing, null or empty, it leaves the choice to the field. -/
  operator : Json.Value
  value : Json.Value

namespace Descriptor

def ofParts? (field operator value : Json.Value) : Option Descriptor :=
  match field with
  | .string field =>
    if operator.isSettled && value.isSettled then some { field, operator, value } else none
  | _ => none

/-- A descriptor is an object, or an array of field, operator and value from which the last ones
may be missing. What is missing counts as null. -/
def ofJson? : Json.Value → Option Descriptor
  | .object members =>
    (members.lookup "field").bind fun field =>
      ofParts? field ((members.lookup "operator").getD .null)
        ((members.lookup "value").getD .null)
  | .array [field] => ofParts? field .null .null
  | .array [field, operator] => ofParts? field operator .null
  | .array [field, operator, value] => ofParts? field operator value
  | _ => none

def comparison? (d : Descriptor) : Option Comparison :=
  match d.operator with
  | .null => none
  | .string name => if name.isEmpty then none else some (.ofName name)
  | _ => some .equal

def comparisonOn (d : Descriptor) (field : Field) : Comparison :=
  (d.comparison?.or field.comparison).getD .equal

/-- Texts with at least one character and numbers can be compared with; an integer beyond 64 bits
with sign is compared as a real number. -/
def usable? (d : Descriptor) : Option Value :=
  match d.value with
  | .string s => if s.isEmpty then none else some (.text s)
  | .integer i =>
    match int64OfInt? i with
    | some i => some (.integer i)
    | none => some (.real (if i < 0 then (Binary64.ofNat i.natAbs).neg else .ofNat i.natAbs))
  | .real x => some (.real x)
  | _ => none

end Descriptor

namespace Filter

/-- What one element of the array contributes. A value that cannot be used drops the element
before its field is looked up. -/
def condition (fields : FieldTable) (element : Json.Value) : Traced (List Condition) :=
  match Descriptor.ofJson? element with
  | none => do
    Traced.note .descriptorMalformed
    return []
  | some d =>
    match d.usable? with
    | none => pure []
    | some value =>
      match fields.get? d.field with
      | none => do
        Traced.note (.fieldUnlisted d.field)
        return []
      | some field =>
        pure [{ column := field.column, comparison := d.comparisonOn field, value }]

theorem mem_condition_iff {fields : FieldTable} {element : Json.Value} {c : Condition} :
    c ∈ (condition fields element).value ↔
      ∃ d value field, Descriptor.ofJson? element = some d ∧ d.usable? = some value ∧
        fields.get? d.field = some field ∧
        c = { column := field.column, comparison := d.comparisonOn field, value } := by
  unfold condition
  cases hd : Descriptor.ofJson? element with
  | none => simp
  | some d =>
    cases hv : d.usable? with
    | none => simp [hv]
    | some value =>
      cases hf : fields.get? d.field with
      | none => simp [hv, hf]
      | some field => simp [hv, hf]

def elements (raw : String) : Traced (List Json.Value) :=
  match Json.Value.ofText? raw.toList with
  | some (.array items) => pure items
  | some _ => do
    Traced.note .filtersNotArray
    return []
  | none => do
    Traced.note (.filtersNotJson raw)
    return []

def conditions (fields : FieldTable) (params : Parameters) : Traced (List Condition) :=
  match params.get? "filters" with
  | none => pure []
  | some raw => do
    let items ← elements raw
    Traced.collect (condition fields) items

def items (params : Parameters) : List Json.Value :=
  ((params.get? "filters").map fun raw => (elements raw).value).getD []

theorem items_of_get? {params : Parameters} {raw : String} {items : List Json.Value}
    (h : params.get? "filters" = some raw)
    (hitems : Json.Value.ofText? raw.toList = some (.array items)) :
    Filter.items params = items := by
  simp [Filter.items, elements, h, hitems]

theorem value_conditions (fields : FieldTable) (params : Parameters) :
    (conditions fields params).value =
      (items params).flatMap fun item => (condition fields item).value := by
  unfold conditions items
  cases params.get? "filters" with
  | none => rfl
  | some raw => rw [Traced.value_bind, Traced.value_collect]; rfl

theorem mem_conditions_iff {fields : FieldTable} {params : Parameters} {c : Condition} :
    c ∈ (conditions fields params).value ↔
      ∃ raw items, params.get? "filters" = some raw ∧
        Json.Value.ofText? raw.toList = some (.array items) ∧
        ∃ element ∈ items, c ∈ (condition fields element).value := by
  unfold conditions
  cases hp : params.get? "filters" with
  | none => simp
  | some raw =>
    simp only [Traced.value_bind, Traced.value_collect, elements]
    cases hj : Json.Value.ofText? raw.toList with
    | none => simp [hj]
    | some v => cases v <;> simp [hj]

theorem registered_of_mem_conditions {fields : FieldTable} {params : Parameters} {c : Condition}
    (h : c ∈ (conditions fields params).value) :
    ∃ name field, fields.get? name = some field ∧ field.column = c.column := by
  obtain ⟨raw, items, -, -, element, -, he⟩ := mem_conditions_iff.1 h
  obtain ⟨d, value, field, -, -, hf, rfl⟩ := mem_condition_iff.1 he
  exact ⟨d.field, field, hf, rfl⟩

def lists (conditions : List Condition) : ClauseLists :=
  { texts := conditions.map fun c => String.ofList c.text
    values := conditions.map Condition.bound }

@[simp] theorem clauses_lists (conditions : List Condition) :
    (lists conditions).clauses = conditions.map Condition.clause := by
  simp [lists, ClauseLists.clauses, Condition.clause, List.zip_map']

end Filter
end Listing
