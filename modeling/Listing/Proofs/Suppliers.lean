import Listing.Proofs.Agreement
import Listing.Proofs.Layout
import Mathlib.Data.List.Forall2

/-!
What supplies the values of a statement. Every fragment of a restriction comes from a key of the
request, from its search or from one of its filters, and so do the values bound to it. When one of
these has its value replaced by another that can be used, the fragments keep their texts, and only
values that it supplies can change.
-/

set_option autoImplicit false

namespace Listing

open Sql

/-- What a fragment comes from; filters go by their place in the array. -/
inductive Supplier
  | key (name : String)
  | search
  | filter (index : Nat)
  deriving DecidableEq, Repr

abbrev Fragment := Supplier × Clause

namespace Fragment

def texts (fragments : List Fragment) : List String :=
  fragments.map fun f => f.2.text

def values (fragments : List Fragment) : List Value :=
  fragments.flatMap fun f => f.2.values

def suppliers (fragments : List Fragment) : List Supplier :=
  fragments.flatMap fun f => f.2.values.map fun _ => f.1

/-- The same fragment, but for the values that `s` supplies. -/
structure SameBut (s : Supplier) (f g : Fragment) : Prop where
  supplier : f.1 = g.1
  text : f.2.text = g.2.text
  length : f.2.values.length = g.2.values.length
  values : f.1 ≠ s → f.2.values = g.2.values

theorem SameBut.refl (s : Supplier) (f : Fragment) : SameBut s f f :=
  ⟨rfl, rfl, rfl, fun _ => rfl⟩

variable {s : Supplier} {fs gs : List Fragment}

theorem texts_eq (h : List.Forall₂ (SameBut s) fs gs) : texts fs = texts gs := by
  induction h with
  | nil => rfl
  | cons hf _ ih => rw [texts, List.map_cons, hf.text]; exact congrArg _ ih

theorem SameBut.suppliers_eq {f g : Fragment} (h : SameBut s f g) :
    (f.2.values.map fun _ => f.1) = g.2.values.map fun _ => g.1 := by
  rw [List.map_const', List.map_const', h.supplier, h.length]

theorem suppliers_eq (h : List.Forall₂ (SameBut s) fs gs) : suppliers fs = suppliers gs := by
  induction h with
  | nil => rfl
  | cons hf _ ih =>
    rw [suppliers, List.flatMap_cons, hf.suppliers_eq]
    exact congrArg _ ih

@[simp]
theorem length_suppliers (fs : List Fragment) : (suppliers fs).length = (values fs).length := by
  simp [suppliers, values, List.length_flatMap]

theorem values_get?_eq (h : List.Forall₂ (SameBut s) fs gs) {i : Nat}
    (hi : (suppliers fs)[i]? ≠ some s) : (values fs)[i]? = (values gs)[i]? := by
  induction h generalizing i with
  | nil => rfl
  | @cons f g fs gs hf _ ih =>
    rw [suppliers, List.flatMap_cons] at hi
    rw [values, values, List.flatMap_cons, List.flatMap_cons]
    by_cases hlt : i < f.2.values.length
    · rw [List.getElem?_append_left hlt, List.getElem?_append_left (hf.length ▸ hlt)]
      have hne : f.1 ≠ s := by
        rintro rfl
        rw [List.getElem?_append_left (by simpa using hlt)] at hi
        simp [hlt] at hi
      rw [hf.values hne]
    · have hle : f.2.values.length ≤ i := Nat.le_of_not_lt hlt
      rw [List.getElem?_append_right (by simpa using hle), List.length_map] at hi
      rw [List.getElem?_append_right hle, List.getElem?_append_right (hf.length ▸ hle), ← hf.length]
      exact ih hi

end Fragment

def Filter.fragments (fields : FieldTable) (items : List Json.Value) (first : Nat) :
    List Fragment :=
  (items.zipIdx first).flatMap fun item =>
    (condition fields item.1).value.map fun c => (.filter item.2, c.clause)

def Search.fragments (columns : List String) (term : Option String) : List Fragment :=
  (Restriction.taken [clause columns term]).map (.search, ·)

def EqualityRule.fragment? (params : Parameters) (rule : EqualityRule) : Option Fragment :=
  ((params.stripped? rule.key).bind rule.kind.read?).map fun v => (.key rule.key, rule.clause v)

def EqualityRule.fragments (rules : List EqualityRule) (params : Parameters) : List Fragment :=
  rules.filterMap (fragment? params)

namespace Resource

def fragments (r : Resource) (params : Parameters) : List Fragment :=
  EqualityRule.fragments r.equality params ++
    Search.fragments r.searchColumns (Search.term? params) ++
    Filter.fragments r.fields (Filter.items params) 0

theorem clauses_equalityFragments (rules : List EqualityRule) (params : Parameters) :
    (EqualityRule.fragments rules params).map Prod.snd =
      (EqualityRule.applyAll rules (params.pick (rules.map (·.key)))).value := by
  rw [EqualityRule.value_applyAll, EqualityRule.fragments, List.map_filterMap]
  refine List.filterMap_congr fun rule hrule => ?_
  rw [EqualityRule.get?_pick_key hrule, EqualityRule.fragment?, Option.map_map]
  rfl

theorem clauses_filterFragments (fields : FieldTable) (items : List Json.Value) (first : Nat) :
    (Filter.fragments fields items first).map Prod.snd =
      (items.flatMap fun item => (Filter.condition fields item).value).map Condition.clause := by
  induction items generalizing first with
  | nil => rfl
  | cons item items ih =>
    have hrest := ih (first + 1)
    rw [Filter.fragments] at hrest
    rw [Filter.fragments, List.zipIdx_cons, List.flatMap_cons, List.map_append, hrest,
      List.flatMap_cons, List.map_append, List.map_map]
    rfl

theorem clauses_fragments (r : Resource) (params : Parameters) :
    (r.fragments params).map Prod.snd = Restriction.taken (r.clauses params) := by
  rw [fragments, List.map_append, List.map_append, clauses_equalityFragments,
    clauses_filterFragments, taken_clauses, Filter.value_conditions, Search.fragments, List.map_map]
  simp [Function.comp_def]

theorem restriction_fragments (r : Resource) (params : Parameters) :
    (r.resolve params).value.restriction =
      { texts := Fragment.texts (r.fragments params)
        values := Fragment.values (r.fragments params) } := by
  rw [restriction_resolve, Restriction.pushAll_eq, ← clauses_fragments]
  simp [Fragment.texts, Fragment.values, List.flatMap_map, Function.comp_def]

end Resource

open Fragment (SameBut)

namespace Json.Value

/-- What a filter can compare with. -/
def IsOperand : Json.Value → Prop
  | .string s => s ≠ ""
  | .integer _ | .real _ => True
  | _ => False

def withValue : Json.Value → Json.Value → Json.Value
  | .object members, v => .object (members.map fun m => (m.1, if m.1 = "value" then v else m.2))
  | .array [field, operator, _], v => .array [field, operator, v]
  | element, _ => element

theorem IsOperand.isSettled {v : Json.Value} (h : v.IsOperand) : v.isSettled = true := by
  cases v <;> first | rfl | exact h.elim

@[simp] theorem lookup_withValue (entries : List (String × Json.Value)) (v : Json.Value)
    (name : String) :
    (entries.map fun m => (m.1, if m.1 = "value" then v else m.2)).lookup name =
      (entries.lookup name).map fun w => if name = "value" then v else w := by
  induction entries with
  | nil => rfl
  | cons e entries ih =>
    obtain ⟨other, a⟩ := e
    by_cases hn : name = other
    · subst hn
      simp
    · have hb : (name == other) = false := by simpa using hn
      simp [List.lookup_cons, hb, ih]

end Json.Value

namespace Descriptor

open Json.Value

@[simp]
theorem isSome_usable?_iff (d : Descriptor) : d.usable?.isSome = true ↔ d.value.IsOperand := by
  obtain ⟨field, operator, value⟩ := d
  cases value with
  | string s => by_cases hs : s = "" <;> simp [usable?, IsOperand, hs]
  | integer i => cases hi : Numeric.int64OfInt? i <;> simp [usable?, IsOperand, hi]
  | real x => simp [usable?, IsOperand]
  | _ => simp [usable?, IsOperand]

theorem ofParts?_eq_some_iff {field operator value : Json.Value} {d : Descriptor} :
    ofParts? field operator value = some d ↔
      operator.isSettled = true ∧ value.isSettled = true ∧
        field = .string d.field ∧ operator = d.operator ∧ value = d.value := by
  obtain ⟨name, op, v⟩ := d
  cases field with
  | string s =>
    simp only [ofParts?, Option.ite_none_right_eq_some, Bool.and_eq_true, Option.some.injEq,
      Descriptor.mk.injEq, Json.Value.string.injEq, and_assoc]
  | _ => simp [ofParts?]

theorem ofParts?_withValue {field operator value v : Json.Value} {d : Descriptor}
    (hd : ofParts? field operator value = some d) (hv : v.IsOperand) :
    ofParts? field operator v = some { d with value := v } := by
  obtain ⟨ho, -, hf, hd, -⟩ := ofParts?_eq_some_iff.1 hd
  exact ofParts?_eq_some_iff.2 ⟨ho, hv.isSettled, hf, hd, rfl⟩

theorem ofJson?_withValue {element v : Json.Value} {d : Descriptor}
    (hd : ofJson? element = some d) (hu : d.value.IsOperand) (hv : v.IsOperand) :
    ofJson? (element.withValue v) = some { d with value := v } := by
  unfold ofJson? at hd
  split at hd
  · rename_i members
    obtain ⟨field, hfield, hparts⟩ := Option.bind_eq_some_iff.1 hd
    obtain ⟨w, hw⟩ : ∃ w, members.lookup "value" = some w := by
      have hlast := (ofParts?_eq_some_iff.1 hparts).2.2.2.2
      rw [← hlast] at hu
      cases hl : members.lookup "value" with
      | some w => exact ⟨w, rfl⟩
      | none => rw [hl] at hu; exact hu.elim
    have hreplaced := ofParts?_withValue hparts hv
    simp only [withValue, ofJson?, lookup_withValue, hfield, hw]
    simpa using hreplaced
  · have hnull := (ofParts?_eq_some_iff.1 hd).2.2.2.2
    rw [← hnull] at hu
    exact hu.elim
  · have hnull := (ofParts?_eq_some_iff.1 hd).2.2.2.2
    rw [← hnull] at hu
    exact hu.elim
  · exact ofParts?_withValue hd hv
  · exact nomatch hd

end Descriptor

theorem EqualityRule.fragment?_congr {p q : Parameters} {rule : EqualityRule}
    (h : p.get? rule.key = q.get? rule.key) : fragment? p rule = fragment? q rule := by
  rw [fragment?, fragment?, Parameters.stripped?_congr h]

theorem EqualityRule.fragments_congr {p q : Parameters} {rules : List EqualityRule}
    (h : p.AgreeOn q (rules.map (·.key))) : fragments rules p = fragments rules q :=
  List.filterMap_congr fun _ hrule => fragment?_congr (h _ (List.mem_map_of_mem hrule))

theorem EqualityRule.sameBut_fragments {p q : Parameters} {name old new : String}
    (hp : p.stripped? name = some old) (hq : q.stripped? name = some new)
    (hrest : p.AgreeExcept q name) {rules : List EqualityRule}
    (hread : ∀ rule ∈ rules, rule.key = name →
      (rule.kind.read? old).isSome ∧ (rule.kind.read? new).isSome) :
    List.Forall₂ (SameBut (.key name)) (fragments rules p) (fragments rules q) := by
  induction rules with
  | nil => exact .nil
  | cons rule rules ih =>
    have hrules := ih fun other ho => hread other (List.mem_cons_of_mem _ ho)
    unfold fragments at hrules ⊢
    by_cases hk : rule.key = name
    · obtain ⟨hv, hw⟩ := hread rule List.mem_cons_self hk
      obtain ⟨v, hv⟩ := Option.isSome_iff_exists.1 hv
      obtain ⟨w, hw⟩ := Option.isSome_iff_exists.1 hw
      have hfound : fragment? p rule = some (.key rule.key, rule.clause v) := by
        simp [fragment?, hk, hp, hv]
      have hfound' : fragment? q rule = some (.key rule.key, rule.clause w) := by
        simp [fragment?, hk, hq, hw]
      rw [List.filterMap_cons_some hfound, List.filterMap_cons_some hfound']
      exact .cons ⟨rfl, rfl, rfl, fun hne => absurd (congrArg Supplier.key hk) hne⟩ hrules
    · have hsame : fragment? p rule = fragment? q rule := fragment?_congr (hrest _ hk)
      cases hfound : fragment? p rule with
      | none => rwa [List.filterMap_cons_none hfound, List.filterMap_cons_none (hsame ▸ hfound)]
      | some f =>
        rw [List.filterMap_cons_some hfound, List.filterMap_cons_some (hsame ▸ hfound)]
        exact .cons (.refl _ f) hrules

theorem Search.sameBut_fragments (columns : List String) {old new : String} (ho : old ≠ "")
    (hn : new ≠ "") :
    List.Forall₂ (SameBut .search) (fragments columns (some old))
      (fragments columns (some new)) := by
  by_cases hc : columns = []
  · rw [fragments, fragments, clause_of_eq (.inl hc), clause_of_eq (.inl hc)]
    exact List.forall₂_same.2 fun f _ => .refl _ f
  · have htaken (term : String) (ht : term ≠ "") :
        fragments columns (some term) = [(.search, clause columns (some term))] := by
      rw [fragments, Restriction.taken_eq_self]
      · rfl
      · simp [clause_of_ne hc ht, Clause.isEmpty]
    rw [htaken old ho, htaken new hn]
    refine .cons ⟨rfl, ?_, ?_, fun hne => absurd rfl hne⟩ .nil
    · rw [clause_of_ne hc ho, clause_of_ne hc hn]
    · simp [clause_of_ne hc ho, clause_of_ne hc hn]

theorem Filter.fragments_append_cons (fields : FieldTable) (before : List Json.Value)
    (element : Json.Value) (after : List Json.Value) :
    fragments fields (before ++ element :: after) 0 =
      fragments fields before 0 ++
        ((condition fields element).value.map fun c => (.filter before.length, c.clause)) ++
        fragments fields after (before.length + 1) := by
  unfold fragments
  rw [List.zipIdx_append, List.zipIdx_cons, List.flatMap_append, List.flatMap_cons]
  simp

theorem Filter.sameBut_fragments (fields : FieldTable) (before after : List Json.Value)
    {element v : Json.Value} {d : Descriptor} (hd : Descriptor.ofJson? element = some d)
    (hu : d.value.IsOperand) (hv : v.IsOperand) :
    List.Forall₂ (SameBut (.filter before.length))
      (fragments fields (before ++ element :: after) 0)
      (fragments fields (before ++ element.withValue v :: after) 0) := by
  have hsame (fs : List Fragment) (s : Supplier) : List.Forall₂ (SameBut s) fs fs :=
    List.forall₂_same.2 fun f _ => .refl s f
  rw [fragments_append_cons, fragments_append_cons]
  refine List.rel_append (List.rel_append (hsame _ _) ?_) (hsame _ _)
  obtain ⟨old, ho⟩ := Option.isSome_iff_exists.1 (d.isSome_usable?_iff.2 hu)
  obtain ⟨new, hn⟩ := Option.isSome_iff_exists.1
    (Descriptor.isSome_usable?_iff { d with value := v } |>.2 hv)
  have hd' := Descriptor.ofJson?_withValue hd hu hv
  unfold condition
  simp only [hd, hd', ho, hn]
  -- the field and the comparison are the descriptor's own, whatever its value
  cases fields.get? d.field with
  | none => exact .nil
  | some field => exact .cons ⟨rfl, rfl, rfl, fun hne => absurd rfl hne⟩ .nil

namespace Resource

/-- The request `q` is `p` with one value replaced, both values being of use. -/
inductive Replaced (r : Resource) (p q : Parameters) : Supplier → Prop
  | key {name old new : String} (hk : name ∈ r.keys) (hp : p.stripped? name = some old)
    (hq : q.stripped? name = some new)
    (hread : ∀ rule ∈ r.equality, rule.key = name →
      (rule.kind.read? old).isSome ∧ (rule.kind.read? new).isSome)
    (hrest : p.AgreeExcept q name) : Replaced r p q (.key name)
  | search {old new : String} (hp : p.stripped? "search" = some old)
    (hq : q.stripped? "search" = some new) (hrest : p.AgreeExcept q "search") :
    Replaced r p q .search
  | filter {raw raw' : String} {before after : List Json.Value} {element v : Json.Value}
    {d : Descriptor} (hp : p.get? "filters" = some raw) (hq : q.get? "filters" = some raw')
    (hitems : Json.Value.ofText? raw.toList = some (.array (before ++ element :: after)))
    (hitems' : Json.Value.ofText? raw'.toList =
      some (.array (before ++ element.withValue v :: after)))
    (hd : Descriptor.ofJson? element = some d) (hu : d.value.IsOperand) (hv : v.IsOperand)
    (hrest : p.AgreeExcept q "filters") : Replaced r p q (.filter before.length)

theorem items_congr {p q : Parameters} (h : p.AgreeOn q ["filters"]) :
    Filter.items p = Filter.items q := by
  rw [Filter.items, Filter.items, h "filters" (by simp)]

variable {r : Resource} {p q : Parameters} {s : Supplier}

theorem Replaced.sameBut_fragments (hkeys : ∀ name ∈ r.keys, name ∉ commonNames)
    (h : r.Replaced p q s) :
    List.Forall₂ (SameBut s) (r.fragments p) (r.fragments q) := by
  have hsame (fs : List Fragment) : List.Forall₂ (SameBut s) fs fs :=
    List.forall₂_same.2 fun f _ => .refl s f
  unfold fragments
  cases h with
  | @key name old new hk hp hq hread hrest =>
    have hother : p.AgreeOn q commonNames := hrest.agreeOn (hkeys name hk)
    rw [Search.term?_congr (hother.mono (by simp [commonNames])),
      items_congr (hother.mono (by simp [commonNames]))]
    exact List.rel_append (List.rel_append
      (EqualityRule.sameBut_fragments hp hq hrest hread) (hsame _)) (hsame _)
  | @search old new hp hq hrest =>
    have hnone : "search" ∉ r.keys := fun hk => hkeys _ hk (by simp [commonNames])
    rw [EqualityRule.fragments_congr (hrest.agreeOn hnone),
      items_congr (hrest.agreeOn (by simp)), Search.term?, Search.term?, hp, hq]
    exact List.rel_append (List.rel_append (hsame _) (Search.sameBut_fragments r.searchColumns
      (Parameters.ne_empty_of_stripped? hp) (Parameters.ne_empty_of_stripped? hq))) (hsame _)
  | filter hp hq hitems hitems' hd hu hv hrest =>
    have hnone : "filters" ∉ r.keys := fun hk => hkeys _ hk (by simp [commonNames])
    rw [EqualityRule.fragments_congr (hrest.agreeOn hnone),
      Search.term?_congr (hrest.agreeOn (by simp)), Filter.items_of_get? hp hitems,
      Filter.items_of_get? hq hitems']
    exact List.rel_append (List.rel_append (hsame _) (hsame _))
      (Filter.sameBut_fragments r.fields _ _ hd hu hv)

theorem Replaced.agreeOn (hkeys : ∀ name ∈ r.keys, name ∉ commonNames) (h : r.Replaced p q s) :
    p.AgreeOn q ["page", "pageSize", "sortField", "sortOrder"] := by
  cases h with
  | @key name old new hk hp hq hread hrest =>
    exact (hrest.agreeOn (hkeys name hk)).mono (by simp [commonNames])
  | search hp hq hrest => exact hrest.agreeOn (by simp)
  | filter hp hq hitems hitems' hd hu hv hrest => exact hrest.agreeOn (by simp)

theorem Replaced.window_eq (hkeys : ∀ name ∈ r.keys, name ∉ commonNames)
    (h : r.Replaced p q s) : (r.resolve p).value.window = (r.resolve q).value.window :=
  congrArg Traced.value (r.limits.resolve_congr ((h.agreeOn hkeys).mono (by simp)))

theorem Replaced.order_eq (hkeys : ∀ name ∈ r.keys, name ∉ commonNames)
    (h : r.Replaced p q s) : (r.resolve p).value.order = (r.resolve q).value.order :=
  congrArg Traced.value (r.sorting.resolve_congr ((h.agreeOn hkeys).mono (by simp)))

def suppliers (r : Resource) (params : Parameters) : List Supplier :=
  Fragment.suppliers (r.fragments params)

/-- As many values, and the same ones wherever `s` is not the supplier. -/
def SameValuesBut (s : Supplier) (suppliers : List Supplier) (vs ws : List Value) : Prop :=
  vs.length = ws.length ∧ ∀ i : Nat, suppliers[i]? ≠ some s → vs[i]? = ws[i]?

theorem SameValuesBut.append {suppliers : List Supplier} {vs ws : List Value}
    (h : SameValuesBut s suppliers vs ws) (more : List Value) :
    SameValuesBut s suppliers (vs ++ more) (ws ++ more) := by
  refine ⟨by simp [h.1], fun i hi => ?_⟩
  by_cases hlt : i < vs.length
  · rw [List.getElem?_append_left hlt, List.getElem?_append_left (h.1 ▸ hlt)]
    exact h.2 i hi
  · have hle : vs.length ≤ i := Nat.le_of_not_lt hlt
    rw [List.getElem?_append_right hle, List.getElem?_append_right (h.1 ▸ hle), h.1]

theorem Replaced.sameValuesBut (hkeys : ∀ name ∈ r.keys, name ∉ commonNames)
    (h : r.Replaced p q s) :
    SameValuesBut s (r.suppliers p) (Fragment.values (r.fragments p))
      (Fragment.values (r.fragments q)) := by
  have hfragments := h.sameBut_fragments hkeys
  refine ⟨?_, fun i hi => Fragment.values_get?_eq hfragments hi⟩
  rw [← Fragment.length_suppliers, ← Fragment.length_suppliers,
    Fragment.suppliers_eq hfragments]

/-- What takes the place of a value is bound where the value was bound, and does nothing else. -/
theorem replaced_value_moves_only_binds (r : Resource)
    (hkeys : ∀ name ∈ r.keys, name ∉ commonNames) (p q : Parameters) (s : Supplier)
    (h : r.Replaced p q s) :
    let before := (r.resolve p).value
    let after := (r.resolve q).value
    (∀ d, (r.pageStatement d before).sql = (r.pageStatement d after).sql ∧
      (r.countStatement d before).sql = (r.countStatement d after).sql) ∧
    before.window = after.window ∧ before.order = after.order ∧
    (∀ params, (r.resolve params).value.restriction =
      { texts := Fragment.texts (r.fragments params)
        values := Fragment.values (r.fragments params) }) ∧
    r.suppliers p = r.suppliers q ∧
    ∀ d, SameValuesBut s (r.suppliers p) (r.pageStatement d before).values
        (r.pageStatement d after).values ∧
      SameValuesBut s (r.suppliers p) (r.countStatement d before).values
        (r.countStatement d after).values := by
  intro before after
  have hfragments := h.sameBut_fragments hkeys
  have hwindow : before.window = after.window := h.window_eq hkeys
  have horder : before.order = after.order := h.order_eq hkeys
  have hrender : before.restriction.render = after.restriction.render := by
    rw [Restriction.render, Restriction.render, restriction_fragments, restriction_fragments,
      Fragment.texts_eq hfragments]
  have hvalues : SameValuesBut s (r.suppliers p) before.restriction.values
      after.restriction.values := by
    rw [restriction_fragments, restriction_fragments]
    exact h.sameValuesBut hkeys
  refine ⟨fun d => ⟨?_, ?_⟩, hwindow, horder, restriction_fragments r,
    Fragment.suppliers_eq hfragments, fun d => ⟨?_, hvalues⟩⟩
  · simp only [pageStatement, Statement.page, hrender, horder]
  · simp only [countStatement, Statement.count, hrender]
  · simp only [pageStatement, Statement.page, hwindow]
    exact hvalues.append _

theorem replaced_value_moves_only_binds_participants :
    let p : Parameters := { entries := [("role", "admin"), ("search", "5%")] }
    let q : Parameters := p.insert "role" " ' OR ? LIKE $1 "
    let page (params : Parameters) :=
      participants.pageStatement .postgres (participants.resolve params).value
    (∀ name ∈ participants.keys, name ∉ commonNames) ∧ participants.Replaced p q (.key "role") ∧
      participants.suppliers p = [.key "role", .search, .search] ∧ (page p).sql = (page q).sql ∧
      (page p).values[2]? = (page q).values[2]? := by
  intro p q page
  have hkeys : ∀ name ∈ participants.keys, name ∉ commonNames := by decide
  have hrest : p.AgreeExcept q "role" := by
    intro other ho
    rw [Table.get?_insert, if_neg (by simpa using ho)]
  have h : participants.Replaced p q (.key "role") :=
    .key (by decide) (by decide +kernel : p.stripped? "role" = some "admin")
      (by decide +kernel : q.stripped? "role" = some "' OR ? LIKE $1") (by decide +kernel) hrest
  have hsuppliers : participants.suppliers p = [.key "role", .search, .search] := by
    decide +kernel
  have hmoved := replaced_value_moves_only_binds participants hkeys p q _ h
  refine ⟨hkeys, h, hsuppliers, (hmoved.1 .postgres).1, ?_⟩
  exact (hmoved.2.2.2.2.2 .postgres).1.2 2 (by rw [hsuppliers]; decide)

end Resource

end Listing
