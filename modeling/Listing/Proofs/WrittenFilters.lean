import Listing.Filter
import Listing.Proofs.DocumentValues
import Mathlib.Data.List.Forall2

set_option autoImplicit false

namespace Listing

open Sql Numeric

theorem lookup_of_perm {α : Type} {ms ns : List (String × α)} (h : ms.Perm ns)
    (hnames : (ms.map (·.1)).Nodup) (name : String) : ms.lookup name = ns.lookup name := by
  induction h with
  | nil => rfl
  | cons m _ ih =>
    rw [List.map_cons, List.nodup_cons] at hnames
    rw [List.lookup_cons, List.lookup_cons, ih hnames.2]
  | swap m n ms =>
    have hne : n.1 ≠ m.1 := by
      simp only [List.map_cons, List.nodup_cons, List.mem_cons, not_or] at hnames
      exact hnames.1.1
    rw [List.lookup_cons, List.lookup_cons, List.lookup_cons, List.lookup_cons]
    by_cases hm : name = m.1
    · have hn : (name == n.1) = false := beq_eq_false_iff_ne.2 (hm ▸ hne.symm)
      rw [hn]
    · rw [beq_eq_false_iff_ne.2 hm]
  | trans h _ ih ih' => exact (ih hnames).trans (ih' ((h.map (·.1)).nodup_iff.1 hnames))

/-- What a client compares with: a text with at least one character, or an integer. -/
inductive Operand
  | text (s : String) (h : s ≠ "")
  | integer (i : Int64)

namespace Operand

def value : Operand → Value
  | text s _ => .text s
  | integer i => .integer i

def json : Operand → Json.Value
  | text s _ => .string s
  | integer i => .integer i.toInt

def chars : Operand → List Char
  | text s _ => s.toList
  | integer i => int64Chars i

@[simp] theorem isSettled_json (o : Operand) : o.json.isSettled = true := by
  cases o <;> rfl

end Operand

structure ClientFilter where
  field : String
  operator : Option String
  operand : Operand

namespace ClientFilter

def members (c : ClientFilter) : List (String × Json.Value) :=
  ("field", .string c.field) :: ("value", c.operand.json) ::
    (c.operator.map fun name => ("operator", Json.Value.string name)).toList

inductive IsObject (c : ClientFilter) : Json.Value → Prop
  | ordered {members : List (String × Json.Value)} (h : members.Perm c.members) :
    IsObject c (.object members)

/-- An operator that is missing or empty leaves the choice to the field. -/
def comparisonOn (c : ClientFilter) (field : Field) : Comparison :=
  match c.operator with
  | none | some "" => field.comparison.getD .equal
  | some name => .ofName name

def textOn (c : ClientFilter) (field : Field) : String :=
  String.ofList
    (field.column.toList ++ ' ' :: (c.comparisonOn field).sql.toList ++ [' ', '?'])

def boundOn (c : ClientFilter) (field : Field) : Value :=
  match c.comparisonOn field with
  | .like => .text (String.ofList (Like.containing c.operand.chars))
  | _ => c.operand.value

/-- The filters on registered fields, each with its field; the latest registration counts. -/
def listed (registrations : List (String × Field)) (filters : List ClientFilter) :
    List (ClientFilter × Field) :=
  filters.filterMap fun c => (registrations.reverse.lookup c.field).map fun field => (c, field)

def conditionOn (c : ClientFilter) (field : Field) : Condition where
  column := field.column
  comparison := c.comparisonOn field
  value := c.operand.value

def descriptor (c : ClientFilter) : Descriptor where
  field := c.field
  operator := (c.operator.map Json.Value.string).getD .null
  value := c.operand.json

variable (c : ClientFilter)

@[simp]
theorem bound_conditionOn (field : Field) : (c.conditionOn field).bound = c.boundOn field := by
  have hchars : c.operand.value.chars = c.operand.chars := by cases c.operand <;> rfl
  unfold Condition.bound boundOn conditionOn
  cases c.comparisonOn field <;> simp [hchars]

@[simp] theorem usable_descriptor : c.descriptor.usable? = some c.operand.value := by
  unfold Descriptor.usable? descriptor
  cases c.operand with
  | text s h => simp [Operand.json, Operand.value, h]
  | integer i => simp [Operand.json, Operand.value]

@[simp] theorem comparisonOn_descriptor (field : Field) :
    c.descriptor.comparisonOn field = c.comparisonOn field := by
  unfold Descriptor.comparisonOn Descriptor.comparison? descriptor comparisonOn
  cases c.operator with
  | none => rfl
  | some name =>
    by_cases hname : name = ""
    · subst hname
      rfl
    · simp [hname]

theorem nodup_members : (c.members.map (·.1)).Nodup := by
  unfold members
  cases c.operator <;> simp

theorem lookup_members :
    c.members.lookup "field" = some (.string c.field) ∧
      c.members.lookup "operator" = c.operator.map Json.Value.string ∧
      c.members.lookup "value" = some c.operand.json := by
  unfold members
  cases c.operator <;> simp [List.lookup_cons]

@[simp] theorem isSettled_operator : c.descriptor.operator.isSettled = true := by
  unfold descriptor
  cases c.operator <;> rfl

theorem flat_member : ∀ m ∈ c.members, m.1 ≠ Json.embeddingName ∧ m.2.isSettled = true ∧
    m.2.depth = 0 ∧ m.2.sorted = m.2 := by
  unfold members
  cases c.operator <;> cases c.operand <;>
    simp [Json.Value.sorted, Json.Value.isSettled, Json.Value.depth, Operand.json,
      Json.embeddingName]

variable {c} {v : Json.Value}

theorem IsObject.descriptor_sorted (h : c.IsObject v) :
    Descriptor.ofJson? v.sorted = some c.descriptor := by
  obtain @⟨members, hmembers⟩ := h
  have hsorted : Json.Value.sortedMembers members = members :=
    Json.sortedMembers_eq fun m hm => (c.flat_member m (hmembers.mem_iff.1 hm)).2.2.2
  have hlookup (name : String) :
      (Json.sortMembers members).lookup name = c.members.lookup name := by
    rw [Json.lookup_sortMembers]
    have hperm := members.reverse_perm.trans hmembers
    exact lookup_of_perm hperm ((hperm.map _).nodup_iff.2 c.nodup_members) name
  obtain ⟨hfield, hoperator, hvalue⟩ := c.lookup_members
  rw [Json.Value.sorted, hsorted, Descriptor.ofJson?, hlookup, hlookup, hlookup, hfield, hoperator,
    hvalue, Option.bind_some, Option.getD_some]
  exact if_pos (Bool.and_eq_true_iff.2 ⟨c.isSettled_operator, c.operand.isSettled_json⟩)

theorem IsObject.isSettled (h : c.IsObject v) : v.isSettled = true := by
  obtain @⟨members, hmembers⟩ := h
  have hflat : ∀ m ∈ members, _ := fun m hm => c.flat_member m (hmembers.mem_iff.1 hm)
  refine Bool.and_eq_true_iff.2
    ⟨?_, (Json.membersSettled_iff members).2 fun m hm => (hflat m hm).2.1⟩
  cases members with
  | nil => rfl
  | cons m members => simpa using (hflat m List.mem_cons_self).1

theorem IsObject.depth_le (h : c.IsObject v) : v.depth ≤ 1 := by
  obtain @⟨members, hmembers⟩ := h
  refine Nat.succ_le_succ ((Json.membersDepth_le_iff members 0).2 fun m hm => ?_)
  exact Nat.le_of_eq (c.flat_member m (hmembers.mem_iff.1 hm)).2.2.1

theorem forall_flat {filters : List ClientFilter} {objects : List Json.Value}
    (h : List.Forall₂ IsObject filters objects) :
    ∀ v ∈ objects, v.isSettled = true ∧ v.depth ≤ 1 := by
  induction h with
  | nil => exact nofun
  | cons hv _ ih => exact List.forall_mem_cons.2 ⟨⟨hv.isSettled, hv.depth_le⟩, ih⟩

end ClientFilter

namespace Filter

theorem value_condition_of_isObject {fields : FieldTable} {c : ClientFilter} {v : Json.Value}
    (h : c.IsObject v) :
    (condition fields v.sorted).value = ((fields.get? c.field).map c.conditionOn).toList := by
  unfold condition
  rw [h.descriptor_sorted]
  simp only [c.usable_descriptor]
  have hfield : c.descriptor.field = c.field := rfl
  rw [hfield]
  cases fields.get? c.field with
  | none => rfl
  | some field => simp [ClientFilter.conditionOn]

theorem value_conditions_of_objects {fields : FieldTable} {filters : List ClientFilter}
    {objects : List Json.Value} (h : List.Forall₂ ClientFilter.IsObject filters objects) :
    ((Json.Value.sortedItems objects).flatMap fun v => (condition fields v).value) =
      filters.flatMap fun c => ((fields.get? c.field).map c.conditionOn).toList := by
  induction h with
  | nil => rfl
  | cons hv _ ih =>
    rw [Json.Value.sortedItems, List.flatMap_cons, List.flatMap_cons, ih,
      value_condition_of_isObject hv]

theorem value_conditions_of_document {fields : FieldTable} {params : Parameters} {raw : String}
    {filters : List ClientFilter} {objects : List Json.Value}
    (hobjects : List.Forall₂ ClientFilter.IsObject filters objects)
    (hraw : Json.Document (.array objects) raw.toList) (hparam : params.get? "filters" = some raw) :
    (conditions fields params).value =
      filters.flatMap fun c => ((fields.get? c.field).map c.conditionOn).toList := by
  have hobject := ClientFilter.forall_flat hobjects
  have hdepth : (Json.Value.array objects).depth ≤ Json.greatestDepth := by
    have hitems := (Json.itemsDepth_le_iff objects 1).2 fun v hv => (hobject v hv).2
    exact Nat.le_trans (Nat.succ_le_succ hitems) (by decide)
  have hsettled : (Json.Value.array objects).isSettled = true :=
    (Json.areSettled_iff objects).2 fun v hv => (hobject v hv).1
  rw [value_conditions, items_of_get? hparam (Json.Value.ofText_of_document hraw hdepth hsettled),
    value_conditions_of_objects hobjects]

theorem get?_registered (registrations : List (String × Field)) (name : String) :
    (registrations.foldl (fun table entry => table.insert entry.1 entry.2)
      ({} : FieldTable)).get? name = registrations.reverse.lookup name := by
  rw [Table.get?, Table.entries_foldl_insert, List.nil_append]

theorem conditionOn_listed (registrations : List (String × Field)) (filters : List ClientFilter) :
    (filters.flatMap fun c =>
      ((registrations.reverse.lookup c.field).map c.conditionOn).toList) =
        (ClientFilter.listed registrations filters).map fun (c, field) => c.conditionOn field := by
  rw [ClientFilter.listed]
  induction filters with
  | nil => rfl
  | cons c filters ih =>
    rw [List.flatMap_cons, ih, List.filterMap_cons]
    cases registrations.reverse.lookup c.field <;> rfl

/-- However the objects are ordered, spaced and escaped, and however their text is spelled in the
query string, the filters on registered fields come back in order, and no others. -/
theorem written_filters_come_back (registrations : List (String × Field))
    (filters : List ClientFilter) (objects : List Json.Value) (text spelled : List Char)
    (hobjects : List.Forall₂ ClientFilter.IsObject filters objects)
    (htext : Json.Document (.array objects) text) (hspelled : Form.TextSpelling text spelled) :
    let fields : FieldTable :=
      registrations.foldl (fun table entry => table.insert entry.1 entry.2) {}
    let params := Parameters.ofQueryString (String.ofList ("filters=".toList ++ spelled))
    let listed := ClientFilter.listed registrations filters
    lists (conditions fields params).value =
      { texts := listed.map fun (c, field) => c.textOn field
        values := listed.map fun (c, field) => c.boundOn field } := by
  intro fields params listed
  have hname : Form.TextSpelling "filters".toList "filters".toList :=
    Form.spelling_self (by decide)
  have hparam : params.get? "filters" = some (String.ofList text) := by
    have hquery : "filters=".toList ++ spelled = "filters".toList ++ '=' :: spelled := rfl
    have hentries : params.entries = [("filters", String.ofList text)] := by
      have hpairs := Form.readPairs_of_spelling hname hspelled (by decide)
      rw [← hquery, String.ofList_toList] at hpairs
      rw [← hpairs]
      exact congrArg Form.readPairs String.toList_ofList
    rw [Table.get?, hentries]
    rfl
  have hconditions : (conditions fields params).value =
      listed.map fun (c, field) => c.conditionOn field := by
    rw [value_conditions_of_document hobjects (by rwa [String.toList_ofList]) hparam]
    simp only [fields, get?_registered]
    exact conditionOn_listed registrations filters
  rw [hconditions, lists, List.map_map, List.map_map]
  congr 1
  exact List.map_congr_left fun entry _ => entry.1.bound_conditionOn entry.2

/-- Of three filters the first is on a field that is not registered, the second escapes its value,
and the last compares an integer as a text. The bracket before them is percent-encoded. -/
theorem written_filters_come_back_escaped :
    let registrations : List (String × Field) := [("name", { column := "t.title" }),
      ("size", { column := "t.size" }), ("name", { column := "p.name" })]
    let filters : List ClientFilter :=
      [{ field := "ghost", operator := none, operand := .integer 0 },
        { field := "name", operator := none, operand := .text "é" (by decide) },
        { field := "size", operator := some "like", operand := .integer (-7) }]
    let objects : List Json.Value := [.object [("field", .string "ghost"), ("value", .integer 0)],
      .object [("value", .string "é"), ("field", .string "name")],
      .object [("operator", .string "like"), ("field", .string "size"), ("value", .integer (-7))]]
    let text := ("[\x7b\"field\":\"ghost\",\"value\":0\x7d," ++
      "\x7b\"value\":\"\\u00E9\",\"field\":\"name\"\x7d," ++
      "\x7b\"operator\":\"like\",\"field\":\"size\",\"value\":-7\x7d]").toList
    let spelled := "%5B".toList ++ text.tail
    let params := Parameters.ofQueryString (String.ofList ("filters=".toList ++ spelled))
    List.Forall₂ ClientFilter.IsObject filters objects ∧ Json.Document (.array objects) text ∧
      Form.TextSpelling text spelled ∧
      lists (conditions
        (registrations.foldl (fun table entry => table.insert entry.1 entry.2) {}) params).value =
          { texts := ["p.name = ?", "t.size LIKE ?"], values := [.text "é", .text "%-7%"] } := by
  intro registrations filters objects text spelled params
  have hobjects : List.Forall₂ ClientFilter.IsObject filters objects :=
    .cons (.ordered (List.Perm.refl _)) (.cons (.ordered (List.Perm.swap ..))
      (.cons (.ordered (List.perm_append_singleton ..).symm) .nil))
  have hvalue : "value".toList.any Json.needsEscape = false := by decide
  have hzero : Json.WrittenMember ("value", .integer 0) _ :=
    .named (Json.spelling_self hvalue) (.bare ':') (.integer (by decide) (by decide))
  have hghost : Json.Written (.object [("field", .string "ghost"), ("value", .integer 0)]) _ :=
    .object (.bare '\x7b') (.cons (.plain (by decide) (by decide)) (.bare ',') (.last hzero))
      (.bare '\x7d')
  have hunit : Json.CharSpelling 'é' ['\\', 'u', '0', '0', 'E', '9'] :=
    .unit (.digits (by decide) (by decide) (by decide) (by decide))
  have hescaped : Json.WrittenMember ("value", .string "é") _ :=
    .named (Json.spelling_self hvalue) (.bare ':') (.string (.cons hunit .nil))
  have hname : Json.Written (.object [("value", .string "é"), ("field", .string "name")]) _ :=
    .object (.bare '\x7b') (.cons hescaped (.bare ',') (.last (.plain (by decide) (by decide))))
      (.bare '\x7d')
  have hseven : Json.WrittenMember ("value", .integer (-7)) _ :=
    .named (Json.spelling_self hvalue) (.bare ':') (.integer (by decide) (by decide))
  have hsize : Json.Written (.object [("operator", .string "like"), ("field", .string "size"),
      ("value", .integer (-7))]) _ :=
    .object (.bare '\x7b') (.cons (.plain (by decide) (by decide)) (.bare ',')
      (.cons (.plain (by decide) (by decide)) (.bare ',') (.last hseven))) (.bare '\x7d')
  have htext : Json.Document (.array objects) text :=
    .bare (.array (.bare '[') (.cons hghost (.bare ',') (.cons hname (.bare ',') (.last hsize)))
      (.bare ']'))
  have hbyte : Form.ByteSpelling 0x5B ['%', '5', 'B'] := .percent (by decide) (by decide)
  have hbracket : Form.CharSpelling '[' ['%', '5', 'B'] := .bytes (.cons hbyte .nil)
  have hspelled : Form.TextSpelling text spelled :=
    .cons hbracket (Form.spelling_self (by decide))
  exact ⟨hobjects, htext, hspelled, written_filters_come_back registrations filters objects text
    spelled hobjects htext hspelled⟩

end Filter

end Listing
