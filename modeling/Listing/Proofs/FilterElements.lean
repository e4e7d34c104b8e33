import Listing.Proofs.JoinedArrays
import Listing.Proofs.Suppliers

set_option autoImplicit false

namespace Listing

open Sql Numeric

/-- The field, the operator and the value of an element; what is missing after the field counts
as null. -/
inductive HasParts : Json.Value → Json.Value → Json.Value → Json.Value → Prop
  | object {members : List (String × Json.Value)} {field : Json.Value}
    (h : members.lookup "field" = some field) :
    HasParts (.object members) field ((members.lookup "operator").getD .null)
      ((members.lookup "value").getD .null)
  | field (field : Json.Value) : HasParts (.array [field]) field .null .null
  | operator (field operator : Json.Value) :
    HasParts (.array [field, operator]) field operator .null
  | value (field operator value : Json.Value) :
    HasParts (.array [field, operator, value]) field operator value

/-- A well-formed element names its field by a text. -/
structure Descriptor.Describes (d : Descriptor) (element : Json.Value) : Prop where
  parts : HasParts element (.string d.field) d.operator d.value
  operator : d.operator.isSettled = true
  value : d.value.isSettled = true

/-- The comparison that an operator stands for on a field. -/
inductive Field.Chooses (field : Field) : Json.Value → Comparison → Prop
  | absent {operator : Json.Value} (h : operator = .null ∨ operator = .string "") :
    Chooses field operator (field.comparison.getD .equal)
  | known {name : String} {comparison : Comparison}
    (h : (name, comparison) ∈ [("like", .like), ("gte", .atLeast), ("lte", .atMost)]) :
    Chooses field (.string name) comparison
  | unknown {name : String} (h : name ∉ ["", "like", "gte", "lte"]) :
    Chooses field (.string name) .equal
  | noText {operator : Json.Value} (hnull : operator ≠ .null)
    (htext : ∀ name, operator ≠ .string name) : Chooses field operator .equal

/-- The values that a column can be compared with. An integer beyond 64 bits with sign counts as a
real number. -/
inductive Json.Value.Offers : Json.Value → Sql.Value → Prop
  | text {s : String} (h : s ≠ "") : Offers (.string s) (.text s)
  | integer (i : Int64) : Offers (.integer i.toInt) (.integer i)
  | large {n : Nat} (h : int64Max < n) : Offers (.integer n) (.real (.ofNat n))
  | small {n : Nat} (h : int64Max + 1 < n) :
    Offers (.integer (-n)) (.real (Binary64.ofNat n).neg)
  | real (x : Binary64) : Offers (.real x) (.real x)

namespace Descriptor

theorem ofJson?_eq_some_iff {element : Json.Value} {d : Descriptor} :
    ofJson? element = some d ↔ d.Describes element := by
  have hparts {field operator value : Json.Value} (h : HasParts element field operator value) :
      ofJson? element = ofParts? field operator value := by
    cases h with
    | object hfield => rw [ofJson?, hfield, Option.bind_some]
    | field => rfl
    | operator => rfl
    | value => rfl
  constructor
  · intro hd
    obtain ⟨field, operator, value, h⟩ : ∃ field operator value,
        HasParts element field operator value := by
      unfold ofJson? at hd
      split at hd
      · obtain ⟨field, hfield, -⟩ := Option.bind_eq_some_iff.1 hd
        exact ⟨_, _, _, .object hfield⟩
      · exact ⟨_, _, _, .field _⟩
      · exact ⟨_, _, _, .operator _ _⟩
      · exact ⟨_, _, _, .value _ _ _⟩
      · cases hd
    rw [hparts h] at hd
    obtain ⟨hoperator, hvalue, rfl, rfl, rfl⟩ := ofParts?_eq_some_iff.1 hd
    exact ⟨h, hoperator, hvalue⟩
  · intro h
    rw [hparts h.parts]
    exact ofParts?_eq_some_iff.2 ⟨h.operator, h.value, rfl, rfl, rfl⟩

theorem ofName_eq_equal {name : String} (h : name ∉ ["like", "gte", "lte"]) :
    Comparison.ofName name = .equal := by
  simp only [List.mem_cons, List.not_mem_nil, or_false, not_or] at h
  unfold Comparison.ofName
  split <;> simp_all

theorem chooses_comparisonOn (d : Descriptor) (field : Field) :
    field.Chooses d.operator (d.comparisonOn field) := by
  unfold comparisonOn comparison?
  cases hoperator : d.operator with
  | null => exact .absent (.inl rfl)
  | string name =>
    by_cases hempty : name = ""
    · subst hempty
      exact .absent (.inr rfl)
    have hname : ((if name.isEmpty then none else some (Comparison.ofName name)).or
        field.comparison).getD .equal = .ofName name := by
      simp [hempty]
    simp only [hname]
    by_cases hknown : name ∈ ["like", "gte", "lte"]
    · simp only [List.mem_cons, List.not_mem_nil, or_false] at hknown
      rcases hknown with rfl | rfl | rfl <;> exact .known (by simp [Comparison.ofName])
    · rw [ofName_eq_equal hknown]
      exact .unknown (by simpa [hempty] using hknown)
  | _ => exact .noText nofun nofun

theorem comparisonOn_eq_of_chooses {d : Descriptor} {field : Field} {comparison : Comparison}
    (h : field.Chooses d.operator comparison) : d.comparisonOn field = comparison := by
  unfold comparisonOn comparison?
  generalize d.operator = operator at h
  cases h with
  | absent habsent => rcases habsent with rfl | rfl <;> rfl
  | known hknown =>
    simp only [List.mem_cons, Prod.mk.injEq, List.not_mem_nil, or_false] at hknown
    rcases hknown with ⟨rfl, rfl⟩ | ⟨rfl, rfl⟩ | ⟨rfl, rfl⟩ <;> rfl
  | @unknown name hunknown =>
    obtain ⟨hempty, hname⟩ := not_or.1 (mt List.mem_cons.2 hunknown)
    simp [hempty, ofName_eq_equal hname]
  | noText hnull htext =>
    cases operator with
    | null => exact absurd rfl hnull
    | string name => exact absurd rfl (htext name)
    | _ => rfl

theorem usable?_of_offers {d : Descriptor} {value : Value} (h : d.value.Offers value) :
    d.usable? = some value := by
  unfold usable?
  generalize d.value = given at h
  cases h with
  | text hne => simp [hne]
  | integer i => simp
  | @large n hn =>
    have hbeyond : int64OfInt? n = none := int64OfInt?_eq_none_iff.2 (by omega)
    have hpositive : ¬ (n : Int) < 0 := by omega
    simp only [hbeyond, if_neg hpositive, Int.natAbs_natCast]
  | @small n hn =>
    have hbeyond : int64OfInt? (-n) = none := int64OfInt?_eq_none_iff.2 (by omega)
    have hnegative : -(n : Int) < 0 := by omega
    simp only [hbeyond, if_pos hnegative, Int.natAbs_neg, Int.natAbs_natCast]
  | real x => rfl

theorem offers_of_usable? {d : Descriptor} {value : Value} (h : d.usable? = some value) :
    d.value.Offers value := by
  unfold usable? at h
  generalize d.value = given at h
  cases given with
  | string s =>
    dsimp only at h
    split at h
    · exact nomatch h
    · rename_i hne
      rw [← Option.some.inj h]
      exact .text (by simpa using hne)
  | integer n =>
    dsimp only at h
    split at h
    · rename_i i hi
      rw [← Option.some.inj h, ← int64OfInt?_eq_some_iff.1 hi]
      exact .integer i
    · rename_i hbeyond
      rw [← Option.some.inj h]
      -- beyond 64 bits with sign an integer is a large natural number or the negative of one
      rcases int64OfInt?_eq_none_iff.1 hbeyond with hlow | hhigh
      · obtain ⟨m, rfl⟩ : ∃ m : Nat, n = -m := ⟨n.natAbs, by omega⟩
        rw [if_pos (by omega), Int.natAbs_neg, Int.natAbs_natCast]
        exact .small (by omega)
      · obtain ⟨m, rfl⟩ : ∃ m : Nat, n = m := ⟨n.natAbs, by omega⟩
        rw [if_neg (by omega), Int.natAbs_natCast]
        exact .large (by omega)
  | real x =>
    rw [← Option.some.inj h]
    exact .real x
  | _ => exact nomatch h

theorem usable?_eq_some_iff {d : Descriptor} {value : Value} :
    d.usable? = some value ↔ d.value.Offers value :=
  ⟨offers_of_usable?, usable?_of_offers⟩

end Descriptor

inductive Fate
  | condition (c : Condition)
  | malformed
  | unusable
  | unlisted (field : String)
  deriving DecidableEq

namespace Fate

def condition? : Fate → Option Condition
  | condition c => some c
  | _ => none

/-- An element whose value cannot be used is dropped without a notice. -/
def notice? : Fate → Option Notice
  | malformed => some .descriptorMalformed
  | unlisted field => some (.fieldUnlisted field)
  | _ => none

end Fate

/-- The value is looked at before the field is. -/
inductive Becomes (fields : FieldTable) (element : Json.Value) : Fate → Prop
  | malformed (h : ∀ d : Descriptor, ¬ d.Describes element) : Becomes fields element .malformed
  | unusable {d : Descriptor} (hd : d.Describes element) (hv : ¬ d.value.IsOperand) :
    Becomes fields element .unusable
  | unlisted {d : Descriptor} (hd : d.Describes element) (hv : d.value.IsOperand)
    (hf : fields.get? d.field = none) : Becomes fields element (.unlisted d.field)
  | condition {d : Descriptor} {value : Value} {field : Field} {comparison : Comparison}
    (hd : d.Describes element) (hv : d.value.Offers value)
    (hf : fields.get? d.field = some field) (hc : field.Chooses d.operator comparison) :
    Becomes fields element (.condition { column := field.column, comparison, value })

namespace Filter

variable (fields : FieldTable) (element : Json.Value)

def fate : Fate :=
  match Descriptor.ofJson? element with
  | none => .malformed
  | some d =>
    match d.usable? with
    | none => .unusable
    | some value =>
      match fields.get? d.field with
      | none => .unlisted d.field
      | some field =>
        .condition { column := field.column, comparison := d.comparisonOn field, value }

theorem condition_fate :
    (condition fields element).value = (fate fields element).condition?.toList ∧
      (condition fields element).notices = (fate fields element).notice?.toList := by
  unfold condition fate
  cases Descriptor.ofJson? element with
  | none => exact ⟨rfl, rfl⟩
  | some d =>
    dsimp only
    cases d.usable? with
    | none => exact ⟨rfl, rfl⟩
    | some value => dsimp only; cases fields.get? d.field <;> exact ⟨rfl, rfl⟩

theorem becomes_fate : Becomes fields element (fate fields element) := by
  unfold fate
  cases hd : Descriptor.ofJson? element with
  | none =>
    refine .malformed fun d h => ?_
    rw [Descriptor.ofJson?_eq_some_iff.2 h] at hd
    exact nomatch hd
  | some d =>
    have hdescribes := Descriptor.ofJson?_eq_some_iff.1 hd
    dsimp only
    cases hv : d.usable? with
    | none => exact .unusable hdescribes fun h => by simp [← d.isSome_usable?_iff, hv] at h
    | some value =>
      dsimp only
      cases hf : fields.get? d.field with
      | none => exact .unlisted hdescribes (d.isSome_usable?_iff.1 (by rw [hv]; rfl)) hf
      | some field =>
        have hoffers := Descriptor.offers_of_usable? hv
        exact .condition hdescribes hoffers hf (d.chooses_comparisonOn field)

variable {fields element}

theorem fate_eq_of_becomes {f : Fate} (h : Becomes fields element f) :
    fate fields element = f := by
  unfold fate
  cases h with
  | malformed h =>
    cases hd : Descriptor.ofJson? element with
    | none => rfl
    | some d => exact absurd (Descriptor.ofJson?_eq_some_iff.1 hd) (h d)
  | @unusable d hd hv =>
    have hnone : d.usable? = none := by
      rwa [← d.isSome_usable?_iff, Bool.not_eq_true, Option.isSome_eq_false_iff,
        Option.isNone_iff_eq_none] at hv
    simp only [Descriptor.ofJson?_eq_some_iff.2 hd, hnone]
  | @unlisted d hd hv hf =>
    obtain ⟨value, hvalue⟩ := Option.isSome_iff_exists.1 (d.isSome_usable?_iff.2 hv)
    simp only [Descriptor.ofJson?_eq_some_iff.2 hd, hvalue, hf]
  | @condition d value field comparison hd hv hf hc =>
    simp only [Descriptor.ofJson?_eq_some_iff.2 hd, Descriptor.usable?_of_offers hv, hf,
      Descriptor.comparisonOn_eq_of_chooses hc]

end Filter

theorem Fate.length_eq (fates : List Fate) :
    fates.length = (fates.filterMap condition?).length +
      ((fates.filterMap notice?).map Notice.message).count "Dropping malformed filter descriptor" +
      ((fates.filterMap notice?).map Notice.message).count "Dropping filter on unlisted field" +
      fates.count .unusable := by
  induction fates with
  | nil => rfl
  | cons f fates ih =>
    simp only [List.length_cons, List.filterMap_cons, List.count_cons, ih]
    cases f <;> simp [condition?, notice?, Notice.message] <;> omega

namespace Filter

variable (fields : FieldTable) {params : Parameters} {raw : String} {items : List Json.Value}

theorem conditions_of_array (hraw : params.get? "filters" = some raw)
    (hitems : Json.Value.ofText? raw.toList = some (.array items)) :
    conditions fields params = Traced.collect (condition fields) items := by
  unfold conditions elements
  rw [hraw]
  dsimp only
  rw [hitems]
  rfl

theorem conditions_of_fates (hraw : params.get? "filters" = some raw)
    (hitems : Json.Value.ofText? raw.toList = some (.array items)) :
    (conditions fields params).value = (items.map (fate fields)).filterMap Fate.condition? ∧
      (conditions fields params).notices = (items.map (fate fields)).filterMap Fate.notice? := by
  rw [conditions_of_array fields hraw hitems, Traced.value_collect, Traced.notices_collect,
    List.filterMap_eq_flatMap_toList, List.filterMap_eq_flatMap_toList, List.flatMap_map,
    List.flatMap_map]
  simp only [condition_fate, and_self]

theorem forall₂_becomes_iff {fates : List Fate} :
    List.Forall₂ (Becomes fields) items fates ↔ fates = items.map (fate fields) := by
  constructor
  · intro h
    induction h with
    | nil => rfl
    | cons hf _ ih => rw [List.map_cons, fate_eq_of_becomes hf, ih]
  · rintro rfl
    exact List.forall₂_map_right_iff.2 (List.forall₂_same.2 fun v _ => becomes_fate fields v)

theorem text_eq (c : Condition) :
    String.ofList c.text = c.column ++ " " ++ c.comparison.sql ++ " ?" := by
  rw [← String.toList_inj]
  simp [Condition.text]

@[simp] theorem texts_lists (conditions : List Condition) :
    (lists conditions).texts =
      conditions.map fun c => c.column ++ " " ++ c.comparison.sql ++ " ?" :=
  List.map_congr_left fun c _ => text_eq c

@[simp] theorem values_lists (conditions : List Condition) :
    (lists conditions).values = conditions.map Condition.bound :=
  rfl

theorem conditions_joined {first second both : Parameters} {a b : List Char}
    {others : List Json.Value} (ha : ¬ Json.Spaces a) (hb : ¬ Json.Spaces b)
    (hitems : Json.Value.ofText? (Json.bracketed a) = some (.array items))
    (hothers : Json.Value.ofText? (Json.bracketed b) = some (.array others))
    (hfirst : first.get? "filters" = some (String.ofList (Json.bracketed a)))
    (hsecond : second.get? "filters" = some (String.ofList (Json.bracketed b)))
    (hboth : both.get? "filters" = some (String.ofList (Json.bracketed (a ++ ',' :: b)))) :
    (conditions fields both).value =
        (conditions fields first).value ++ (conditions fields second).value ∧
      (conditions fields both).notices =
        (conditions fields first).notices ++ (conditions fields second).notices := by
  have hjoined := Json.Value.ofText_joined ha hb hitems hothers
  rw [← String.toList_ofList (l := Json.bracketed a)] at hitems
  rw [← String.toList_ofList (l := Json.bracketed b)] at hothers
  rw [← String.toList_ofList (l := Json.bracketed (a ++ ',' :: b))] at hjoined
  obtain ⟨hvalue, hnotices⟩ := conditions_of_fates fields hfirst hitems
  obtain ⟨hvalue', hnotices'⟩ := conditions_of_fates fields hsecond hothers
  obtain ⟨hvalues, hall⟩ := conditions_of_fates fields hboth hjoined
  rw [hvalues, hall, hvalue, hvalue', hnotices, hnotices', List.map_append,
    List.filterMap_append, List.filterMap_append]
  exact ⟨rfl, rfl⟩

/-- What two arrays give is given by the array of the elements of both, one after the other; only a
text of nothing but spaces adds no element. In every array each element becomes one thing: one of
the conditions, one of the notices, or nothing. -/
theorem array_is_read_element_by_element (fields : FieldTable) :
    let parsed := fun params : Parameters => lists (conditions fields params).value
    let events := fun params : Parameters => (conditions fields params).notices
    (∀ (first second both : Parameters) (a b : List Char) (items others : List Json.Value),
      ¬ Json.Spaces a → ¬ Json.Spaces b →
      Json.Value.ofText? (Json.bracketed a) = some (.array items) →
      Json.Value.ofText? (Json.bracketed b) = some (.array others) →
      first.get? "filters" = some (String.ofList (Json.bracketed a)) →
      second.get? "filters" = some (String.ofList (Json.bracketed b)) →
      both.get? "filters" = some (String.ofList (Json.bracketed (a ++ ',' :: b))) →
      (parsed both).texts = (parsed first).texts ++ (parsed second).texts ∧
        (parsed both).values = (parsed first).values ++ (parsed second).values ∧
        events both = events first ++ events second) ∧
    ∀ (params : Parameters) (raw : String) (items : List Json.Value),
      params.get? "filters" = some raw → Json.Value.ofText? raw.toList = some (.array items) →
      (parsed params).texts.length = (parsed params).values.length ∧
      ∃ fates : List Fate,
        (∀ others, List.Forall₂ (Becomes fields) items others ↔ others = fates) ∧
        (parsed params).texts = (fates.filterMap Fate.condition?).map
          (fun c => c.column ++ " " ++ c.comparison.sql ++ " ?") ∧
        (parsed params).values = (fates.filterMap Fate.condition?).map Condition.bound ∧
        events params = fates.filterMap Fate.notice? ∧
        items.length = (parsed params).texts.length +
          ((events params).map Notice.message).count "Dropping malformed filter descriptor" +
          ((events params).map Notice.message).count "Dropping filter on unlisted field" +
          fates.count .unusable := by
  intro parsed events
  constructor
  · intro first second both a b items others ha hb hitems hothers hfirst hsecond hboth
    obtain ⟨hvalue, hnotices⟩ :=
      conditions_joined fields ha hb hitems hothers hfirst hsecond hboth
    refine ⟨?_, ?_, hnotices⟩
    · simp only [parsed, texts_lists, hvalue, List.map_append]
    · simp only [parsed, values_lists, hvalue, List.map_append]
  · intro params raw items hraw hitems
    obtain ⟨hvalue, hnotices⟩ := conditions_of_fates fields hraw hitems
    have hlength := Fate.length_eq (items.map (fate fields))
    rw [List.length_map] at hlength
    refine ⟨?_, items.map (fate fields), fun others => forall₂_becomes_iff fields, ?_, ?_,
      hnotices, ?_⟩
    · simp only [parsed, texts_lists, values_lists, List.length_map]
    · simp only [parsed, texts_lists, hvalue]
    · simp only [parsed, values_lists, hvalue]
    · simp only [parsed, events, texts_lists, List.length_map, hvalue, hnotices]
      exact hlength

/-- Of an unlisted field, an element that is no descriptor and a descriptor that leaves the
comparison to its field, only the last is a condition. -/
theorem array_is_read_element_by_element_ghost :
    let fields : FieldTable :=
      Table.insert {} "name" { column := "t.name", comparison := some .like }
    let a := "\x7b\"field\":\"ghost\",\"value\":\"x\"\x7d,null".toList
    let b := "[\"name\",null,\"x\"]".toList
    let params := fun s : List Char =>
      (Table.insert {} "filters" (String.ofList (Json.bracketed s)) : Parameters)
    let parsed := conditions fields (params (a ++ ',' :: b))
    ¬ Json.Spaces a ∧ ¬ Json.Spaces b ∧ (lists parsed.value).texts = ["t.name LIKE ?"] ∧
      (lists parsed.value).values = [.text "%x%"] ∧
      parsed.notices = [.fieldUnlisted "ghost", .descriptorMalformed] := by
  intro fields a b params parsed
  let ghost : Json.Value := .object [("field", .string "ghost"), ("value", .string "x")]
  let name : Json.Value := .array [.string "name", .null, .string "x"]
  have hfield : Json.WrittenMember ("field", .string "ghost") _ := .plain (by decide) (by decide)
  have hvalue : Json.WrittenMember ("value", .string "x") _ := .plain (by decide) (by decide)
  have hghost : Json.Written ghost _ :=
    .object (.bare '\x7b') (.cons hfield (.bare ',') (.last hvalue)) (.bare '\x7d')
  have hname : Json.Written name _ :=
    .array (.bare '[') (.cons (.string (Json.spelling_self (by decide))) (.bare ',')
      (.cons .null (.bare ',') (.last (.string (Json.spelling_self (by decide)))))) (.bare ']')
  have hfirst : Json.Document (.array [ghost, .null]) (Json.bracketed a) :=
    .bare (.array (.bare '[') (.cons hghost (.bare ',') (.last .null)) (.bare ']'))
  have hsecond : Json.Document (.array [name]) (Json.bracketed b) :=
    .bare (.array (.bare '[') (.last hname) (.bare ']'))
  have ha : ¬ Json.Spaces a := fun h => absurd (h '\x7b' (by decide)) (by decide)
  have hb : ¬ Json.Spaces b := fun h => absurd (h '[' (by decide)) (by decide)
  have hitems : Json.Value.ofText? (Json.bracketed a) = some (.array [ghost, .null]) :=
    Json.Value.ofText_of_document hfirst (by decide) (by decide)
  have hothers : Json.Value.ofText? (Json.bracketed b) = some (.array [name]) :=
    Json.Value.ofText_of_document hsecond (by decide) (by decide)
  obtain ⟨htexts, hvalues, hevents⟩ := (array_is_read_element_by_element fields).1 (params a)
    (params b) (params (a ++ ',' :: b)) a b _ _ ha hb hitems hothers rfl rfl rfl
  rw [← String.toList_ofList (l := Json.bracketed a)] at hitems
  rw [← String.toList_ofList (l := Json.bracketed b)] at hothers
  have hnone : conditions fields (params a) =
      { value := [], notices := [.fieldUnlisted "ghost", .descriptorMalformed] } := by
    rw [conditions_of_array fields rfl hitems]
    rfl
  have hlike : conditions fields (params b) =
      { value := [{ column := "t.name", comparison := .like, value := .text "x" }] } := by
    rw [conditions_of_array fields rfl hothers]
    rfl
  have hlists : lists [{ column := "t.name", comparison := .like, value := .text "x" }] =
      { texts := ["t.name LIKE ?"], values := [.text "%x%"] } := rfl
  dsimp only at htexts hvalues hevents
  rw [hnone, hlike, hlists] at htexts hvalues
  rw [hnone, hlike] at hevents
  exact ⟨ha, hb, htexts, hvalues, hevents⟩

end Filter

end Listing
