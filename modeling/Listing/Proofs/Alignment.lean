import Listing.Equality
import Listing.Filter
import Listing.Search
import Mathlib.Data.List.Infix

/-!
Question marks and values of a restriction. However a restriction comes about, its text has as many
question marks as it has values, and the mark at a place among the marks belongs to the clause that
brought the value at the same place. The invariant names the clauses taken so far; each step adds
clauses at the end of that list and changes nothing before them.
-/

set_option autoImplicit false

namespace Listing

open Sql

namespace Sql

/-- A clause whose text has one question mark for each of its values. -/
def Clause.Marked (c : Clause) : Prop :=
  c.text.toList.count '?' = c.values.length

theorem count_intercalate {sep : List Char} (h : '?' ∉ sep) (xs : List (List Char)) :
    (sep.intercalate xs).count '?' = xs.flatten.count '?' := by
  induction xs with
  | nil => rfl
  | cons x xs ih =>
    cases xs with
    | nil => simp
    | cons y ys =>
      rw [List.intercalate_cons_cons, List.flatten_cons]
      simp only [List.count_append, ih, List.count_eq_zero.2 h, Nat.add_zero]

@[simp] theorem count_conjunction (texts : List (List Char)) :
    (Restriction.conjunction texts).count '?' = texts.flatten.count '?' := by
  cases texts with
  | nil => rfl
  | cons text rest =>
    have hw : '?' ∉ " WHERE ".toList := by decide
    have ha : '?' ∉ " AND ".toList := by decide
    rw [Restriction.conjunction, if_neg (by simp), List.count_append, List.count_eq_zero.2 hw,
      count_intercalate ha, Nat.zero_add]

theorem count_flatMap_append_sep {sep : List Char} (hsep : '?' ∉ sep) {cs : List Clause}
    (h : ∀ c ∈ cs, c.Marked) :
    (cs.flatMap fun c => c.text.toList ++ sep).count '?' = (cs.flatMap Clause.values).length := by
  induction cs with
  | nil => rfl
  | cons c cs ih =>
    have hc : c.text.toList.count '?' = c.values.length := h c (by simp)
    have hrest := ih fun other ho => h other (by simp [ho])
    simp only [List.flatMap_cons, List.count_append, List.length_append, hc, hrest,
      List.count_eq_zero.2 hsep, Nat.add_zero]

theorem count_texts {cs : List Clause} (h : ∀ c ∈ cs, c.Marked) :
    ((cs.map Clause.text).map String.toList).flatten.count '?' =
      (cs.flatMap Clause.values).length := by
  have hall := count_flatMap_append_sep (List.not_mem_nil : '?' ∉ []) h
  simpa [List.flatMap_def, Function.comp_def] using hall

theorem intercalate_split {α : Type} (sep : List Char) (f : α → List Char) (before : List α)
    (a : α) (after : List α) :
    sep.intercalate ((before ++ a :: after).map f) =
      (before.flatMap fun b => f b ++ sep) ++ f a ++ after.flatMap fun b => sep ++ f b := by
  -- each separator goes with a text before or after the one at `a`, never with that one
  induction before with
  | nil => simp [intercalate_cons_eq_flatMap]
  | cons b before ih =>
    have hne : (before ++ a :: after).map f ≠ [] := by simp
    rw [List.cons_append, List.map_cons, List.intercalate_cons_of_ne_nil hne, ih]
    simp

end Sql

theorem EqualityRule.marked_clause {rule : EqualityRule} (h : '?' ∉ rule.column.toList)
    (v : Value) : (rule.clause v).Marked := by
  simp [Clause.Marked, clause, List.count_eq_zero.2 h]

theorem EqualityRule.marked_applyAll {rules : List EqualityRule}
    (h : ∀ rule ∈ rules, '?' ∉ rule.column.toList) (found : Parameters) :
    ∀ c ∈ (applyAll rules found).value, c.Marked := by
  intro c hc
  rw [value_applyAll] at hc
  obtain ⟨rule, hrule, hc⟩ := List.mem_filterMap.1 hc
  obtain ⟨v, -, rfl⟩ := Option.map_eq_some_iff.1 hc
  exact marked_clause (h rule hrule) v

theorem Search.count_matchTexts {columns : List String}
    (h : ∀ column ∈ columns, '?' ∉ column.toList) :
    (columns.map matchText).flatten.count '?' = columns.length := by
  induction columns with
  | nil => rfl
  | cons column columns ih =>
    have hc : column.toList.count '?' = 0 := List.count_eq_zero.2 (h column (by simp))
    have hs := ih fun other ho => h other (by simp [ho])
    simp [matchText, hc, hs]

theorem Search.marked_clause {columns : List String}
    (h : ∀ column ∈ columns, '?' ∉ column.toList) (term : Option String) :
    (clause columns term).Marked := by
  unfold clause
  split
  · rfl
  · split
    · rfl
    · have ho : '?' ∉ " OR ".toList := by decide
      have hm : (" OR ".toList.intercalate (columns.map matchText)).count '?' = columns.length := by
        rw [count_intercalate ho, count_matchTexts h]
      simpa [Clause.Marked] using hm

theorem Condition.marked_clause {c : Condition} (h : '?' ∉ c.column.toList) :
    c.clause.Marked := by
  have hs : c.comparison.sql.toList.count '?' = 0 := by cases c.comparison <;> rfl
  simp [Clause.Marked, clause, text, List.count_eq_zero.2 h, hs]

theorem Filter.marked_clauses {fields : FieldTable}
    (h : ∀ name field, fields.get? name = some field → '?' ∉ field.column.toList)
    (params : Parameters) :
    ∀ c ∈ (lists (conditions fields params).value).clauses, c.Marked := by
  intro c hc
  rw [clauses_lists] at hc
  obtain ⟨condition, hcond, rfl⟩ := List.mem_map.1 hc
  obtain ⟨name, field, hf, hcolumn⟩ := registered_of_mem_conditions hcond
  exact Condition.marked_clause (hcolumn ▸ h name field hf)

namespace Sql.Restriction

/-- The ways in which clauses reach a restriction: given as they are, or made from columns that the
caller configured. -/
inductive Step
  | push (text : String) (values : List Value)
  | equalities (found : Parameters) (rules : List EqualityRule)
  | search (text : String) (patterns : List String)
  | searchFor (columns : List String) (term : Option String)
  | filters (lists : ClauseLists)
  | filterBy (fields : FieldTable) (params : Parameters)

namespace Step

def clauses : Step → List Clause
  | push text values => [{ text, values }]
  | equalities found rules => (EqualityRule.applyAll rules found).value
  | search text patterns => [{ text, values := patterns.map .text }]
  | searchFor columns term => [Search.clause columns term]
  | filters lists => lists.clauses
  | filterBy fields params => (Filter.lists (Filter.conditions fields params).value).clauses

def apply (r : Restriction) (s : Step) : Restriction :=
  r.pushAll s.clauses

/-- What callers see to: a text given as it is has one question mark for each value given with it,
unless it is empty, and configured columns have none. -/
def WellMarked : Step → Prop
  | push text values => text ≠ "" → text.toList.count '?' = values.length
  | equalities _ rules => ∀ rule ∈ rules, '?' ∉ rule.column.toList
  | search text patterns => text ≠ "" → text.toList.count '?' = patterns.length
  | searchFor columns _ => ∀ column ∈ columns, '?' ∉ column.toList
  | filters lists => ∀ p ∈ lists.texts.zip lists.values, p.1 ≠ "" → p.1.toList.count '?' = 1
  | filterBy fields _ => ∀ name field, fields.get? name = some field → '?' ∉ field.column.toList

theorem marked_taken {s : Step} (h : s.WellMarked) : ∀ c ∈ taken s.clauses, c.Marked := by
  intro c hc
  obtain ⟨hc, hne⟩ := List.mem_filter.1 hc
  have ht : c.text ≠ "" := by simpa [Clause.isEmpty] using hne
  cases s with
  | push text values =>
    obtain rfl := List.mem_singleton.1 hc
    exact h ht
  | equalities found rules => exact EqualityRule.marked_applyAll h found c hc
  | search text patterns =>
    obtain rfl := List.mem_singleton.1 hc
    have hm : text.toList.count '?' = patterns.length := h ht
    simpa [Clause.Marked] using hm
  | searchFor columns term =>
    obtain rfl := List.mem_singleton.1 hc
    exact Search.marked_clause h term
  | filters lists =>
    obtain ⟨p, hp, rfl⟩ := List.mem_map.1 hc
    exact h p hp ht
  | filterBy fields params => exact Filter.marked_clauses h params c hc

end Step

def run (steps : List Step) : Restriction :=
  steps.foldl Step.apply {}

/-- A restriction that has taken up these clauses and nothing else, each of them marked. -/
structure Carries (r : Restriction) (cs : List Clause) : Prop where
  texts : r.texts = cs.map Clause.text
  values : r.values = cs.flatMap Clause.values
  marked : ∀ c ∈ cs, c.Marked

theorem Carries.apply {r : Restriction} {cs : List Clause} (h : Carries r cs) {s : Step}
    (hs : s.WellMarked) : Carries (s.apply r) (cs ++ taken s.clauses) where
  texts := by simp [Step.apply, pushAll_eq, h.texts]
  values := by simp [Step.apply, pushAll_eq, h.values]
  marked := by
    intro c hc
    rcases List.mem_append.1 hc with hc | hc
    · exact h.marked c hc
    · exact Step.marked_taken hs c hc

theorem Carries.foldl {r : Restriction} {cs : List Clause} (h : Carries r cs) {steps : List Step}
    (hs : ∀ s ∈ steps, s.WellMarked) :
    Carries (steps.foldl Step.apply r) (cs ++ taken (steps.flatMap Step.clauses)) := by
  induction steps generalizing r cs with
  | nil => simpa [taken] using h
  | cons s steps ih =>
    have hstep := h.apply (hs s (by simp))
    have hrest := ih hstep fun other ho => hs other (by simp [ho])
    rw [List.foldl_cons, List.flatMap_cons, taken_append, ← List.append_assoc]
    exact hrest

theorem carries_run {steps : List Step} (hs : ∀ s ∈ steps, s.WellMarked) :
    Carries (run steps) (taken (steps.flatMap Step.clauses)) := by
  have h : Carries {} [] := ⟨rfl, rfl, by simp⟩
  simpa [run] using h.foldl hs

theorem Carries.count_render {r : Restriction} {cs : List Clause} (h : Carries r cs) :
    r.render.count '?' = r.values.length := by
  rw [render, count_conjunction, h.texts, h.values, count_texts h.marked]

/-- What stands before a clause in the text when these stand before it in the restriction; the
trail is what stands after it. -/
def lead (before : List Clause) : List Char :=
  " WHERE ".toList ++ before.flatMap fun c => c.text.toList ++ " AND ".toList

def trail (after : List Clause) : List Char :=
  after.flatMap fun c => " AND ".toList ++ c.text.toList

theorem count_lead {before : List Clause} (h : ∀ c ∈ before, c.Marked) :
    (lead before).count '?' = (before.flatMap Clause.values).length := by
  have hw : '?' ∉ " WHERE ".toList := by decide
  have ha : '?' ∉ " AND ".toList := by decide
  unfold lead
  rw [List.count_append, List.count_eq_zero.2 hw, Nat.zero_add, count_flatMap_append_sep ha h]

theorem conjunction_split (before : List Clause) (c : Clause) (after : List Clause) :
    conjunction ((before ++ c :: after).map fun c => c.text.toList) =
      lead before ++ c.text.toList ++ trail after := by
  unfold lead trail
  rw [conjunction, if_neg (by simp), intercalate_split]
  simp only [List.append_assoc]

theorem Carries.render_split {r : Restriction} {before after : List Clause} {c : Clause}
    (h : Carries r (before ++ c :: after)) :
    r.render = lead before ++ c.text.toList ++ trail after := by
  rw [render, h.texts, List.map_map]
  exact conjunction_split before c after

theorem exists_split_of_lt {cs : List Clause} {i : Nat}
    (h : i < (cs.flatMap Clause.values).length) :
    ∃ before c after j, cs = before ++ c :: after ∧ j < c.values.length ∧
      i = (before.flatMap Clause.values).length + j := by
  induction cs generalizing i with
  | nil => simp at h
  | cons c cs ih =>
    by_cases hc : i < c.values.length
    · exact ⟨[], c, cs, i, rfl, hc, by simp⟩
    · have hi : i - c.values.length < (cs.flatMap Clause.values).length := by
        rw [List.flatMap_cons, List.length_append] at h
        omega
      obtain ⟨before, d, after, j, rfl, hj, hij⟩ := ih hi
      refine ⟨c :: before, d, after, j, rfl, hj, ?_⟩
      rw [List.flatMap_cons, List.length_append]
      omega

theorem Carries.values_get {r : Restriction} {before after : List Clause} {c : Clause}
    (h : Carries r (before ++ c :: after)) {j : Nat} (hj : j < c.values.length) :
    r.values[(before.flatMap Clause.values).length + j]? = c.values[j]? := by
  rw [h.values, List.flatMap_append, List.flatMap_cons,
    List.getElem?_append_right (Nat.le_add_right ..), Nat.add_sub_cancel_left,
    List.getElem?_append_left hj]

theorem Carries.marks_get {r : Restriction} {before after : List Clause} {c : Clause}
    (h : Carries r (before ++ c :: after)) {j p : Nat}
    (hp : (c.text.toList.idxsOf '?')[j]? = some p) :
    (r.render.idxsOf '?')[(before.flatMap Clause.values).length + j]? =
      some ((lead before).length + p) := by
  have hlead : ((lead before).idxsOf '?').length = (before.flatMap Clause.values).length := by
    rw [List.length_idxsOf]
    exact count_lead fun other ho => h.marked other (by simp [ho])
  have hj : j < (c.text.toList.idxsOf '?').length := (List.getElem?_eq_some_iff.1 hp).1
  have hshift : c.text.toList.idxsOf '?' (lead before).length =
      (c.text.toList.idxsOf '?').map (· + (lead before).length) := List.idxsOf_start
  rw [h.render_split, List.append_assoc, List.idxsOf_append, ← hlead,
    List.getElem?_append_right (Nat.le_add_right ..), Nat.add_sub_cancel_left,
    List.idxsOf_append, Nat.zero_add, hshift,
    List.getElem?_append_left (by simpa using hj), List.getElem?_map, hp]
  simp [Nat.add_comm]

/-- Where the value at place `i` of a restriction came from, and where the question mark at place
`i` of its text stands: in the text of the same clause, at the same place among that clause's
values and marks. -/
def Owned (r : Restriction) (cs : List Clause) (i : Nat) : Prop :=
  ∃ before c after j p,
    cs = before ++ c :: after ∧
    r.render = lead before ++ c.text.toList ++ trail after ∧
    i = (before.flatMap Clause.values).length + j ∧
    j < c.values.length ∧ r.values[i]? = c.values[j]? ∧
    (c.text.toList.idxsOf '?')[j]? = some p ∧
    (r.render.idxsOf '?')[i]? = some ((lead before).length + p)

theorem Carries.owned {r : Restriction} {cs : List Clause} (h : Carries r cs) {i : Nat}
    (hi : i < r.values.length) : Owned r cs i := by
  -- the clause is found through the values; that the marks agree is what the invariant gives
  rw [h.values] at hi
  obtain ⟨before, c, after, j, rfl, hj, rfl⟩ := exists_split_of_lt hi
  have hc : c.text.toList.count '?' = c.values.length := h.marked c (by simp)
  have hm : j < (c.text.toList.idxsOf '?').length := by rw [List.length_idxsOf, hc]; exact hj
  have hp := List.getElem?_eq_getElem hm
  exact ⟨before, c, after, j, _, rfl, h.render_split, rfl, hj, h.values_get hj, hp, h.marks_get hp⟩

theorem Carries.values_eq_nil {r : Restriction} {cs : List Clause} (h : Carries r cs)
    (he : r.isEmpty = true) : r.values = [] := by
  have hcs : cs = [] := by simpa [isEmpty, h.texts] using he
  rw [h.values, hcs]
  rfl

@[simp] theorem apply_empty_push (r : Restriction) (values : List Value) :
    (Step.push "" values).apply r = r := by
  have he : Clause.isEmpty { text := "", values } = true := rfl
  exact push_of_isEmpty r he

@[simp] theorem apply_empty_search (r : Restriction) (patterns : List String) :
    (Step.search "" patterns).apply r = r := by
  have he : Clause.isEmpty { text := "", values := patterns.map .text } = true := rfl
  exact push_of_isEmpty r he

theorem apply_filters (r : Restriction) (lists : ClauseLists) :
    (Step.filters lists).apply r =
      let n := min lists.texts.length lists.values.length
      let pairs := ((lists.texts.take n).zip (lists.values.take n)).filter fun p => !p.1.isEmpty
      { texts := r.texts ++ pairs.map (·.1), values := r.values ++ pairs.map (·.2) } := by
  rw [Step.apply, pushAll_eq, Step.clauses, ClauseLists.clauses, taken, List.filter_map,
    List.map_map, List.flatMap_map, List.zip_eq_zip_take_min]
  simp only [← List.map_eq_flatMap]
  rfl

theorem values_follow_question_marks (steps : List Step) (h : ∀ s ∈ steps, s.WellMarked) :
    (∀ done, done <+: steps →
      (run done).render.count '?' = (run done).values.length ∧
      (∀ i < (run done).values.length,
        Owned (run done) (taken (done.flatMap Step.clauses)) i) ∧
      ((run done).isEmpty = true ↔ (run done).render = []) ∧
      ((run done).isEmpty = true → (run done).values = [])) ∧
    (∀ (r : Restriction) (s : Step),
      r.texts <+: (s.apply r).texts ∧ r.values <+: (s.apply r).values) ∧
    (∀ (r : Restriction) (values : List Value) (patterns : List String),
      (Step.push "" values).apply r = r ∧ (Step.search "" patterns).apply r = r) ∧
    (∀ (r : Restriction) (lists : ClauseLists),
      (Step.filters lists).apply r =
        let n := min lists.texts.length lists.values.length
        let pairs := ((lists.texts.take n).zip (lists.values.take n)).filter fun p => !p.1.isEmpty
        { texts := r.texts ++ pairs.map (·.1), values := r.values ++ pairs.map (·.2) }) := by
  refine ⟨?_, ?_, ?_, apply_filters⟩
  · intro done hdone
    have hr := carries_run fun s hs => h s (hdone.subset hs)
    exact ⟨hr.count_render, fun i hi => hr.owned hi, (render_eq_nil_iff _).symm, hr.values_eq_nil⟩
  · intro r s
    rw [Step.apply, pushAll_eq]
    exact ⟨List.prefix_append .., List.prefix_append ..⟩
  · intro r values patterns
    exact ⟨apply_empty_push r values, apply_empty_search r patterns⟩

def mixedSteps : List Step :=
  [ .push "a = ? OR a = ?" [.integer 1, .integer 2],
    .push "" [.text "left out"],
    .equalities { entries := [("b", "five"), ("c", "five")] }
      [ { key := "b", column := "b", kind := .text },
        { key := "c", column := "c", kind := .integer } ],
    .search "d LIKE ?" ["%x%"],
    .searchFor ["e", "f"] (some "y"),
    .filters { texts := ["g = ?", "", "h = ?"], values := [.integer 3, .integer 4] },
    .filterBy { entries := [("i", { column := "i" })] } { entries := [("filters", "[[\"i\"]]")] } ]

theorem values_follow_question_marks_mixed :
    (∀ s ∈ mixedSteps, s.WellMarked) ∧
      (run mixedSteps).render.count '?' = (run mixedSteps).values.length ∧
      (run mixedSteps).values.length = 7 ∧
      Owned (run mixedSteps) (taken (mixedSteps.flatMap Step.clauses)) 6 := by
  have h : ∀ s ∈ mixedSteps, s.WellMarked := by
    intro s hs
    simp only [mixedSteps, List.mem_cons, List.not_mem_nil, or_false] at hs
    rcases hs with rfl | rfl | rfl | rfl | rfl | rfl | rfl
    · intro _; decide
    · intro hne; exact absurd rfl hne
    · unfold Step.WellMarked; decide
    · intro _; decide
    · unfold Step.WellMarked; decide
    · unfold Step.WellMarked; decide
    · intro name field hf
      have he := Table.mem_entries_of_get? hf
      simp only [List.mem_singleton, Prod.mk.injEq] at he
      rw [he.2]
      decide
  have hrun := (values_follow_question_marks mixedSteps h).1 mixedSteps (List.prefix_refl _)
  have hlen : (run mixedSteps).values.length = 7 := by decide
  exact ⟨h, hrun.1, hlen, hrun.2.1 6 (by omega)⟩

end Sql.Restriction
end Listing
