import Listing.Proofs.ConditionReader
import Listing.Proofs.EqualityOutcomes
import Listing.Proofs.FilterElements
import Listing.Proofs.LikeMatching
import Listing.Resource.Samples

/-!
What the restriction of a request means. Its text, read back with its values, holds on a row exactly
if the row meets the request: every equality rule that found a value, the search, and every filter.
How values are compared is left open, and so is what the columns of a row hold.
-/

set_option autoImplicit false

universe u

namespace Listing

open Sql

namespace Sql

structure Interpretation (α : Type u) where
  equal : α → Value → Prop
  atLeast : α → Value → Prop
  atMost : α → Value → Prop
  /-- How `LIKE` compares a character of its pattern with a character of a text. -/
  same : Char → Char → Prop
  /-- The text that `LIKE` searches; a null has none. -/
  text? : α → Option (List Char)

variable {α : Type u} (I : Interpretation α) (row : String → α)

def Interpretation.Compares (a : α) : Comparison → Value → Prop
  | .equal, v => I.equal a v
  | .like, v => ∃ s, I.text? a = some s ∧ Like.Matches I.same v.chars s
  | .atLeast, v => I.atLeast a v
  | .atMost, v => I.atMost a v

def Predicate.Holds : Predicate → Prop
  | .always => True
  | .compare column c v => I.Compares (row column) c v
  | .both p q => p.Holds ∧ q.Holds
  | .either p q => p.Holds ∨ q.Holds

def Interpretation.Contains (a : α) (term : List Char) : Prop :=
  ∃ s, I.text? a = some s ∧ ∃ block, block <:+: s ∧ List.Forall₂ I.same term block

/-- What a filter asks of a column: with `LIKE`, to contain the text of the value. -/
def Interpretation.Meets (a : α) : Comparison → Value → Prop
  | .equal, v => I.equal a v
  | .like, v => I.Contains a v.chars
  | .atLeast, v => I.atLeast a v
  | .atMost, v => I.atMost a v

end Sql

/-- What a request asks of a row, by the texts of its parameters alone. -/
structure Resource.Accepts {α : Type u} (I : Interpretation α) (row : String → α) (r : Resource)
    (params : Parameters) : Prop where
  equalities : ∀ rule ∈ r.equality, ∀ raw core v, params.get? rule.key = some raw →
    Text.IsCore raw.toList core → core ≠ [] → rule.kind.Reads core v →
    I.equal (row rule.column) v
  search : ∀ raw core, params.get? "search" = some raw → Text.IsCore raw.toList core →
    core ≠ [] → r.searchColumns ≠ [] → ∃ column ∈ r.searchColumns, I.Contains (row column) core
  filters : ∀ raw items, params.get? "filters" = some raw →
    Json.Value.ofText? raw.toList = some (.array items) →
    ∀ element ∈ items, ∀ (d : Descriptor) field comparison v, d.Describes element →
    d.value.Offers v → r.fields.get? d.field = some field → field.Chooses d.operator comparison →
    I.Meets (row field.column) comparison v

/-- All columns of the resource's conditions are names that a reader of SQL takes for columns. -/
structure Resource.Readable (r : Resource) : Prop where
  equality : ∀ rule ∈ r.equality, isColumn rule.column = true
  searched : ∀ column ∈ r.searchColumns, isColumn column = true
  fields : ∀ name field, r.fields.get? name = some field → isColumn field.column = true

namespace Sql

variable {α : Type u} {I : Interpretation α} {row : String → α}

@[simp] theorem compares_containing_iff (a : α) (term : List Char) :
    I.Compares a .like (.text (String.ofList (Like.containing term))) ↔ I.Contains a term := by
  simp [Interpretation.Compares, Interpretation.Contains, Value.chars]

@[simp] theorem holds_foldl_both (p : Predicate) (ps : List Predicate) :
    (ps.foldl .both p).Holds I row ↔ p.Holds I row ∧ ∀ q ∈ ps, q.Holds I row := by
  induction ps generalizing p with
  | nil => simp
  | cons q ps ih => simp [ih, Predicate.Holds, and_assoc]

@[simp] theorem holds_foldl_either (p : Predicate) (ps : List Predicate) :
    (ps.foldl .either p).Holds I row ↔ p.Holds I row ∨ ∃ q ∈ ps, q.Holds I row := by
  induction ps generalizing p with
  | nil => simp
  | cons q ps ih => simp [ih, Predicate.Holds, or_assoc]

/-- A clause that reads as an operand of its own, with its own values. -/
structure Clause.States (c : Clause) (p : Predicate) : Prop where
  written : Written .operand p (tokens c.text.toList)
  values : p.values = c.values

/-- Clauses that state conditions which together come to `meaning`. -/
def Means (I : Interpretation α) (row : String → α) (cs : List Clause) (meaning : Prop) : Prop :=
  ∃ parts : List (Clause × Predicate), parts.map Prod.fst = cs ∧
    (∀ part ∈ parts, part.1.States part.2) ∧
    ((∀ part ∈ parts, part.2.Holds I row) ↔ meaning)

theorem Means.nil : Means I row [] True :=
  ⟨[], rfl, by simp, by simp⟩

theorem Means.cons {c : Clause} {p : Predicate} (hc : c.States p) {cs : List Clause}
    {meaning : Prop} (h : Means I row cs meaning) :
    Means I row (c :: cs) (p.Holds I row ∧ meaning) := by
  obtain ⟨parts, rfl, hr, hm⟩ := h
  refine ⟨(c, p) :: parts, rfl, ?_, ?_⟩
  · intro part hpart
    rcases List.mem_cons.1 hpart with rfl | hpart
    · exact hc
    · exact hr part hpart
  · rw [← hm]
    exact List.forall_mem_cons

theorem Means.append {cs ds : List Clause} {m n : Prop} (h : Means I row cs m)
    (k : Means I row ds n) : Means I row (cs ++ ds) (m ∧ n) := by
  obtain ⟨parts, rfl, hr, hm⟩ := h
  obtain ⟨others, rfl, hs, hn⟩ := k
  refine ⟨parts ++ others, by simp, ?_, ?_⟩
  · intro part hpart
    rcases List.mem_append.1 hpart with hpart | hpart
    · exact hr part hpart
    · exact hs part hpart
  · rw [← hm, ← hn]
    simp only [List.mem_append, or_imp, forall_and]

theorem Means.iff {cs : List Clause} {m n : Prop} (h : Means I row cs m) (hmn : m ↔ n) :
    Means I row cs n := by
  obtain ⟨parts, hc, hr, hm⟩ := h
  exact ⟨parts, hc, hr, hm.trans hmn⟩

theorem written_conjunction {part : Clause × Predicate} {parts : List (Clause × Predicate)}
    (h : ∀ other ∈ part :: parts, other.1.States other.2) :
    Written .alternatives ((parts.map Prod.snd).foldl .both part.2)
      ([.andWord].intercalate
        ((part :: parts).map fun other => tokens other.1.text.toList)) := by
  have hpart : Written .chain part.2 (tokens part.1.text.toList) :=
    .factor (h part (by simp)).written
  have hrest : ∀ other ∈ parts.map fun o => (o.2, tokens o.1.text.toList),
      Written .operand other.1 other.2 := by
    intro other ho
    obtain ⟨o, hmem, rfl⟩ := List.mem_map.1 ho
    exact (h o (by simp [hmem])).written
  have hchain := Written.foldl .both hpart hrest
  simpa [Function.comp_def] using Written.alternative hchain

theorem values_conjunction {part : Clause × Predicate} {parts : List (Clause × Predicate)}
    (h : ∀ other ∈ part :: parts, other.1.States other.2) :
    ((parts.map Prod.snd).foldl .both part.2).values =
      ((part :: parts).map Prod.fst).flatMap Clause.values := by
  rw [Predicate.values_foldl fun _ _ => rfl, ← List.map_cons, List.flatMap_map, List.flatMap_map]
  apply List.flatMap_congr
  intro other ho
  exact (h other ho).values

theorem Means.readWhere {cs : List Clause} {meaning : Prop} (h : Means I row cs meaning)
    {r : Restriction} (ht : r.texts = cs.map Clause.text)
    (hv : r.values = cs.flatMap Clause.values) :
    ∃ p, readWhere? r.render r.values = some p ∧ (p.Holds I row ↔ meaning) := by
  obtain ⟨parts, rfl, hs, hm⟩ := h
  cases parts with
  | nil =>
    refine ⟨.always, ?_, ?_⟩
    · simp only [Restriction.render, ht, hv]
      rfl
    · rw [← hm]
      simp [Predicate.Holds]
  | cons part parts =>
    refine ⟨(parts.map Prod.snd).foldl .both part.2, ?_, ?_⟩
    · have hread := (written_conjunction hs).readOperand_eq
      rw [values_conjunction hs, ← hv] at hread
      have htexts : (r.texts.map String.toList).map tokens =
          (part :: parts).map fun other => tokens other.1.text.toList := by
        simp [ht]
      unfold readWhere?
      rw [Restriction.render, tokens_conjunction (by simp [ht]), htexts]
      exact hread
    · rw [holds_foldl_both, ← hm, List.forall_mem_cons, List.forall_mem_map]

theorem states_comparison {name : String} (hn : isColumn name = true) (c : Comparison) (v : Value)
    {clause : Clause}
    (ht : clause.text.toList = name.toList ++ ' ' :: c.sql.toList ++ " ?".toList)
    (hv : clause.values = [v]) : clause.States (.compare name c v) where
  written := by
    rw [ht, tokens_comparison hn]
    exact .compare name c v
  values := hv.symm

end Sql

variable {α : Type u} {I : Interpretation α} {row : String → α}

theorem EqualityRule.means_applyAll {rules : List EqualityRule}
    (h : ∀ rule ∈ rules, isColumn rule.column = true) (found : Parameters) :
    Means I row (applyAll rules found).value
      (∀ rule ∈ rules, ∀ v, (found.get? rule.key).bind rule.kind.read? = some v →
        I.equal (row rule.column) v) := by
  rw [value_applyAll]
  induction rules with
  | nil => exact Means.nil.iff (by simp)
  | cons rule rules ih =>
    have hrest := ih fun other ho => h other (by simp [ho])
    rw [List.filterMap_cons]
    cases hv : (found.get? rule.key).bind rule.kind.read? with
    | none =>
      refine hrest.iff ?_
      rw [List.forall_mem_cons, hv]
      simp
    | some v =>
      have hr : (rule.clause v).States (.compare rule.column .equal v) :=
        states_comparison (h rule (by simp)) .equal v (by simp [clause, Comparison.sql]) rfl
      refine (hrest.cons hr).iff ?_
      rw [List.forall_mem_cons, hv]
      simp [Predicate.Holds, Interpretation.Compares]

theorem Search.tokens_group {columns : List String}
    (h : ∀ column ∈ columns, isColumn column = true) :
    tokens ('(' :: " OR ".toList.intercalate (columns.map matchText) ++ [')']) =
      .opening :: [Token.orWord].intercalate (columns.map fun column =>
        [.column column, .operator .like, .mark]) ++ [.closing] := by
  have ho : " OR ".toList = ' ' :: "OR".toList ++ [' '] := by decide
  have hor : tokens "OR".toList = [.orWord] := by decide
  have hcolumns : (columns.map matchText).map tokens =
      columns.map fun column => [.column column, .operator .like, .mark] := by
    rw [List.map_map]
    apply List.map_congr_left
    intro column hc
    have ht := tokens_comparison (h column hc) .like
    simpa [matchText, Comparison.sql] using ht
  rw [List.cons_append, tokens_opening_cons, tokens_append_closing, ho, tokens_intercalate hor,
    hcolumns, List.cons_append]

theorem Search.states_clause {column : String} {columns : List String}
    (h : ∀ c ∈ column :: columns, isColumn c = true) {term : String} (hterm : term ≠ "") :
    (clause (column :: columns) (some term)).States
      ((columns.map (.compare · .like (pattern term))).foldl .either
        (.compare column .like (pattern term))) where
  written := by
    have hfirst : Written .alternatives (.compare column .like (pattern term))
        [.column column, .operator .like, .mark] :=
      .alternative (.factor (.compare column .like (pattern term)))
    have hrest : ∀ other ∈ columns.map fun c =>
        (Predicate.compare c .like (pattern term), [Token.column c, .operator .like, .mark]),
        Written .chain other.1 other.2 := by
      intro other ho
      obtain ⟨c, -, rfl⟩ := List.mem_map.1 ho
      exact .factor (.compare c .like (pattern term))
    have hgroup := Written.foldl .either hfirst hrest
    rw [clause_of_ne (by simp) hterm, String.toList_ofList, tokens_group h]
    simpa [Function.comp_def] using Written.group hgroup
  values := by
    rw [Predicate.values_foldl fun _ _ => rfl, clause_of_ne (by simp) hterm, List.flatMap_cons,
      List.flatMap_map]
    simp [Predicate.values, ← List.map_eq_flatMap]

theorem Search.means_clause {columns : List String}
    (h : ∀ column ∈ columns, isColumn column = true) (term : Option String) :
    Means I row (Restriction.taken [clause columns term])
      (∀ t, term = some t → t ≠ "" → columns ≠ [] →
        ∃ column ∈ columns, I.Contains (row column) t.toList) := by
  cases term with
  | none => exact Means.nil.iff (by simp)
  | some t =>
    by_cases ht : t = ""
    · rw [clause_of_eq (.inr ht)]
      exact Means.nil.iff (by simp [ht])
    cases columns with
    | nil =>
      rw [clause_of_eq (.inl rfl)]
      exact Means.nil.iff (by simp)
    | cons column columns =>
      have hne : (clause (column :: columns) (some t)).isEmpty = false := by
        simp [clause_of_ne (List.cons_ne_nil column columns) ht, Clause.isEmpty]
      rw [Restriction.taken_eq_self (by simpa using hne)]
      refine (Means.nil.cons (states_clause h ht)).iff ?_
      rw [holds_foldl_either]
      simp [Predicate.Holds, pattern, ht]

theorem Condition.compares_bound_iff (c : Condition) (a : α) :
    I.Compares a c.comparison c.bound ↔ I.Meets a c.comparison c.value := by
  obtain ⟨column, comparison, value⟩ := c
  cases comparison with
  | like => exact compares_containing_iff a value.chars
  | equal => rfl
  | atLeast => rfl
  | atMost => rfl

theorem Condition.means_clauses {conditions : List Condition}
    (h : ∀ c ∈ conditions, isColumn c.column = true) :
    Means I row (conditions.map Condition.clause)
      (∀ c ∈ conditions, I.Meets (row c.column) c.comparison c.value) := by
  induction conditions with
  | nil => exact Means.nil.iff (by simp)
  | cons c conditions ih =>
    have hr : c.clause.States (.compare c.column c.comparison c.bound) :=
      states_comparison (h c (by simp)) c.comparison c.bound (by simp [clause, text]) rfl
    refine ((ih fun other ho => h other (by simp [ho])).cons hr).iff ?_
    rw [List.forall_mem_cons, Predicate.Holds, compares_bound_iff]

namespace Resource

theorem equalities_iff (r : Resource) (params : Parameters) :
    (∀ rule ∈ r.equality, ∀ v,
        ((params.pick (r.equality.map (·.key))).get? rule.key).bind rule.kind.read? = some v →
          I.equal (row rule.column) v) ↔
      ∀ rule ∈ r.equality, ∀ raw core v, params.get? rule.key = some raw →
        Text.IsCore raw.toList core → core ≠ [] → rule.kind.Reads core v →
        I.equal (row rule.column) v := by
  constructor
  · intro h rule hrule raw core v hraw hcore hne hv
    apply h rule hrule v
    rw [EqualityRule.get?_pick_key hrule, Parameters.stripped?_of_isCore hraw hcore hne,
      Option.bind_some]
    exact Kind.read?_ofList_eq_some_iff.2 hv
  · intro h rule hrule v hv
    rw [EqualityRule.get?_pick_key hrule] at hv
    obtain ⟨text, htext, hv⟩ := Option.bind_eq_some_iff.1 hv
    obtain ⟨raw, hraw, hcore⟩ := Parameters.isCore_of_stripped? htext
    exact h rule hrule raw text.toList v hraw hcore (Parameters.toList_ne_nil_of_stripped? htext)
      (Kind.reads_of_read? hv)

theorem search_iff (columns : List String) (params : Parameters) :
    (∀ term, Search.term? params = some term → term ≠ "" → columns ≠ [] →
        ∃ column ∈ columns, I.Contains (row column) term.toList) ↔
      ∀ raw core, params.get? "search" = some raw → Text.IsCore raw.toList core → core ≠ [] →
        columns ≠ [] → ∃ column ∈ columns, I.Contains (row column) core := by
  constructor
  · intro h raw core hraw hcore hne hcolumns
    have hterm := Parameters.stripped?_of_isCore hraw hcore hne
    simpa using h _ hterm (Parameters.ne_empty_of_stripped? hterm) hcolumns
  · intro h term hterm _ hcolumns
    obtain ⟨raw, hraw, hcore⟩ := Parameters.isCore_of_stripped? hterm
    exact h raw term.toList hraw hcore (Parameters.toList_ne_nil_of_stripped? hterm) hcolumns

theorem filters_iff (fields : FieldTable) (params : Parameters) :
    (∀ c ∈ (Filter.conditions fields params).value,
        I.Meets (row c.column) c.comparison c.value) ↔
      ∀ raw items, params.get? "filters" = some raw →
        Json.Value.ofText? raw.toList = some (.array items) →
        ∀ element ∈ items, ∀ (d : Descriptor) field comparison v, d.Describes element →
        d.value.Offers v → fields.get? d.field = some field →
        field.Chooses d.operator comparison → I.Meets (row field.column) comparison v := by
  constructor
  · intro h raw items hraw hitems element helement d field comparison v hd hv hf hc
    obtain rfl := Descriptor.comparisonOn_eq_of_chooses hc
    exact h { column := field.column, comparison := d.comparisonOn field, value := v }
      (Filter.mem_conditions_iff.2
        ⟨raw, items, hraw, hitems, element, helement,
          Filter.mem_condition_iff.2 ⟨d, v, field, Descriptor.ofJson?_eq_some_iff.2 hd,
            Descriptor.usable?_eq_some_iff.2 hv, hf, rfl⟩⟩)
  · intro h c hc
    obtain ⟨raw, items, hraw, hitems, element, helement, hc⟩ := Filter.mem_conditions_iff.1 hc
    obtain ⟨d, v, field, hd, hv, hf, rfl⟩ := Filter.mem_condition_iff.1 hc
    exact h raw items hraw hitems element helement d field _ v
      (Descriptor.ofJson?_eq_some_iff.1 hd) (Descriptor.usable?_eq_some_iff.1 hv) hf
      (d.chooses_comparisonOn field)

theorem means_clauses {r : Resource} (h : r.Readable) (params : Parameters) :
    Means I row (Restriction.taken (r.clauses params)) (r.Accepts I row params) := by
  have hequalities : Means I row _ _ :=
    EqualityRule.means_applyAll h.equality (params.pick (r.equality.map (·.key)))
  have hsearch : Means I row _ _ := Search.means_clause h.searched (Search.term? params)
  have hcolumns : ∀ c ∈ (Filter.conditions r.fields params).value, isColumn c.column = true := by
    intro c hc
    obtain ⟨name, field, hf, hcolumn⟩ := Filter.registered_of_mem_conditions hc
    exact hcolumn ▸ h.fields name field hf
  have hfilters : Means I row _ _ := Condition.means_clauses hcolumns
  rw [taken_clauses]
  refine ((hequalities.append hsearch).append hfilters).iff ?_
  rw [equalities_iff, search_iff, filters_iff]
  constructor
  · rintro ⟨⟨hequal, hfound⟩, hmet⟩
    exact ⟨hequal, hfound, hmet⟩
  · rintro ⟨hequal, hfound, hmet⟩
    exact ⟨⟨hequal, hfound⟩, hmet⟩

theorem where_text_means_request (I : Interpretation α) (row : String → α) (r : Resource)
    (h : r.Readable) (params : Parameters) :
    let restriction := (r.resolve params).value.restriction
    ∃ p, readWhere? restriction.render restriction.values = some p ∧
      (p.Holds I row ↔ r.Accepts I row params) := by
  refine (means_clauses h params).readWhere ?_ ?_
  · rw [restriction_resolve, Restriction.pushAll_eq]
    rfl
  · rw [restriction_resolve, Restriction.pushAll_eq]
    rfl

def plainText : Interpretation String where
  equal a v := .text a = v
  atLeast _ _ := False
  atMost _ _ := False
  same := (· = ·)
  text? a := some a.toList

theorem where_text_means_request_participants :
    let params := Parameters.ofQueryString "role=admin&search=5%25"
    let restriction := (participants.resolve params).value.restriction
    Readable participants ∧
      ∃ p, readWhere? restriction.render restriction.values = some p ∧
        (p.Holds plainText (fun _ => "admin") ↔
          participants.Accepts plainText (fun _ => "admin") params) := by
  have h : Readable participants := by
    refine ⟨by decide, by decide, ?_⟩
    intro name field hf
    have hcolumns : ∀ entry ∈ participants.fields.entries, isColumn entry.2.column = true := by
      decide
    exact hcolumns _ (Table.mem_entries_of_get? hf)
  exact ⟨h, where_text_means_request plainText _ participants h _⟩

end Resource
end Listing
