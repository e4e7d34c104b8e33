import Listing.Resource.Samples
import Mathlib.Data.List.Basic

/-!
Layouts of statements. A layout is the text of a statement in pieces, its placeholders set apart,
each with the comparison whose value it takes. The statements of a request have layouts that are
written down from the resource and from what the request makes use of. In such a layout each
placeholder of `LIKE`, and no other, comes right after the keyword, and only a few texts come after
a placeholder.
-/

set_option autoImplicit false

namespace Listing

open Sql

namespace Sql

/-- The two placeholders for the window of a page belong to no comparison. -/
inductive Piece
  | text (s : List Char)
  | mark (comparison : Option Comparison)

namespace Piece

/-- The text of a layout; `placeholder` says what stands for a mark. -/
def write (placeholder : Option Comparison → List Char) : List Piece → List Char
  | [] => []
  | text s :: ps => s ++ write placeholder ps
  | mark c :: ps => placeholder c ++ write placeholder ps

def plain : List Piece → List Char :=
  write fun _ => ['?']

def bare : List Piece → List Char :=
  write fun _ => []

def marks : List Piece → List (Option Comparison)
  | [] => []
  | text _ :: ps => marks ps
  | mark c :: ps => c :: marks ps

@[simp] theorem write_append (placeholder : Option Comparison → List Char) (ps qs : List Piece) :
    write placeholder (ps ++ qs) = write placeholder ps ++ write placeholder qs := by
  induction ps with
  | nil => rfl
  | cons p ps ih => cases p <;> simp [write, ih]

@[simp] theorem marks_append (ps qs : List Piece) : marks (ps ++ qs) = marks ps ++ marks qs := by
  induction ps with
  | nil => rfl
  | cons p ps ih => cases p <;> simp [marks, ih]

theorem write_intercalate (placeholder : Option Comparison → List Char) (sep : List Piece)
    (parts : List (List Piece)) :
    write placeholder (sep.intercalate parts) =
      (write placeholder sep).intercalate (parts.map (write placeholder)) := by
  induction parts with
  | nil => rfl
  | cons part parts ih =>
    cases parts with
    | nil => simp
    | cons next parts =>
      rw [List.map_cons] at ih
      rw [List.intercalate_cons_cons, write_append, write_append, ih, List.map_cons, List.map_cons,
        List.intercalate_cons_cons]

@[simp] theorem marks_intercalate (word : List Char) (parts : List (List Piece)) :
    marks ([text word].intercalate parts) = parts.flatMap marks := by
  induction parts with
  | nil => rfl
  | cons part parts ih =>
    cases parts with
    | nil => simp
    | cons next parts =>
      rw [List.intercalate_cons_cons, marks_append, marks_append, ih, List.flatMap_cons]
      simp [marks]

theorem count_plain {ps : List Piece} (h : '?' ∉ bare ps) :
    (plain ps).count '?' = (marks ps).length := by
  induction ps with
  | nil => rfl
  | cons p ps ih =>
    cases p with
    | text s =>
      obtain ⟨hs, hps⟩ := not_or.1 (mt List.mem_append.2 h)
      have hcount := ih hps
      simp only [plain] at hcount ⊢
      rw [write, List.count_append, List.count_eq_zero.2 hs, Nat.zero_add, hcount]
      rfl
    | mark c =>
      have hcount := ih h
      simp only [plain] at hcount ⊢
      rw [write, List.count_append, hcount, marks, List.length_cons]
      simp [Nat.add_comm]

/-- What comes after a mark, unless the text ends there. -/
def followers : List (List Char) :=
  [")".toList, " AND ".toList, " OR ".toList, " ORDER BY ".toList, " OFFSET ".toList]

def Follows (rest : List Piece) : Prop :=
  rest = [] ∨ ∃ word ∈ followers, ∃ s ps, rest = text (word ++ s) :: ps

/-- Marks of `LIKE`, and no others, come right after its keyword, and what comes after a mark
follows marks. The text since the last mark is `lead`. -/
def Placed (lead : List Char) : List Piece → Prop
  | [] => True
  | text s :: ps => Placed (lead ++ s) ps
  | mark c :: ps =>
    (likeKeyword <:+ lead ↔ c = some .like) ∧ Follows ps ∧ Placed [] ps

/-- Pieces that may stand anywhere in a layout where something follows them that follows marks. -/
def Fits (ps : List Piece) : Prop :=
  ∀ lead rest, Follows rest → (∀ l, Placed l rest) → Placed lead (ps ++ rest)

theorem follows_text {word : List Char} (h : word ∈ followers) (ps : List Piece) :
    Follows (text word :: ps) :=
  .inr ⟨word, h, [], ps, by rw [List.append_nil]⟩

theorem Fits.intercalate {word : List Char} (hword : word ∈ followers) {parts : List (List Piece)}
    (h : ∀ part ∈ parts, Fits part) : Fits ([text word].intercalate parts) := by
  induction parts with
  | nil => exact fun lead rest _ hrest => hrest lead
  | cons part parts ih =>
    cases parts with
    | nil => simpa using h part (by simp)
    | cons next parts =>
      have hparts := ih fun other ho => h other (by simp [ho])
      intro lead rest hfollows hrest
      rw [List.intercalate_cons_cons, List.append_assoc, List.append_assoc]
      exact h part (by simp) lead _ (follows_text hword _)
        fun l => hparts (l ++ word) rest hfollows hrest

theorem Fits.text_cons {ps : List Piece} (h : Fits ps) (s : List Char) : Fits (text s :: ps) :=
  fun lead rest hfollows hrest => h (lead ++ s) rest hfollows hrest

theorem Fits.append_text {ps : List Piece} (h : Fits ps) {word : List Char}
    (hword : word ∈ followers) : Fits (ps ++ [text word]) := by
  intro lead rest _ hrest
  rw [List.append_assoc]
  exact h lead _ (follows_text hword rest) fun l => hrest (l ++ word)

end Piece

theorem like_suffix_iff (lead column : List Char) (c : Comparison) :
    likeKeyword <:+ lead ++ (column ++ ' ' :: c.sql.toList ++ [' ']) ↔ c = .like := by
  have hkeyword : likeKeyword = ['L', 'I', 'K', 'E', ' '] := by decide
  rw [← List.reverse_prefix, hkeyword]
  cases c <;> simp [Comparison.sql]

theorem not_like_suffix {word : List Char} (hword : ¬ likeKeyword <:+ word)
    (hlong : likeKeyword.length ≤ word.length) (lead : List Char) :
    ¬ likeKeyword <:+ lead ++ word :=
  fun h => hword (List.suffix_of_suffix_length_le h (List.suffix_append lead word) hlong)

end Sql

namespace Resource

open Piece

def comparisonLayout (column : String) (c : Comparison) : List Piece :=
  [.text (column.toList ++ ' ' :: c.sql.toList ++ [' ']), .mark (some c)]

def groupLayout (columns : List String) : List Piece :=
  .text ['('] ::
    [.text " OR ".toList].intercalate (columns.map fun column => comparisonLayout column .like) ++
    [.text [')']]

def rulesMet (r : Resource) (params : Parameters) : List EqualityRule :=
  r.equality.filter fun rule => ((params.stripped? rule.key).bind rule.kind.read?).isSome

def isSearched (r : Resource) (params : Parameters) : Bool :=
  !(Search.clause r.searchColumns (Search.term? params)).isEmpty

def conditionLayouts (r : Resource) (params : Parameters) : List (List Piece) :=
  (r.rulesMet params).map (fun rule => comparisonLayout rule.column .equal) ++
    (if r.isSearched params then [groupLayout r.searchColumns] else []) ++
    (Filter.conditions r.fields params).value.map fun c => comparisonLayout c.column c.comparison

theorem forall_conditionLayouts {r : Resource} {params : Parameters} {P : List Piece → Prop}
    (hrule : ∀ rule ∈ r.equality, P (comparisonLayout rule.column .equal))
    (hgroup : P (groupLayout r.searchColumns))
    (hfilter : ∀ c ∈ (Filter.conditions r.fields params).value,
      P (comparisonLayout c.column c.comparison)) :
    ∀ part ∈ r.conditionLayouts params, P part := by
  intro part hpart
  rcases List.mem_append.1 hpart with hpart | hpart
  · rcases List.mem_append.1 hpart with hpart | hpart
    · obtain ⟨rule, hmet, rfl⟩ := List.mem_map.1 hpart
      exact hrule rule (List.mem_of_mem_filter hmet)
    · split at hpart
      · obtain rfl := List.mem_singleton.1 hpart
        exact hgroup
      · simp at hpart
  · obtain ⟨c, hc, rfl⟩ := List.mem_map.1 hpart
    exact hfilter c hc

def whereLayout (parts : List (List Piece)) : List Piece :=
  if parts.isEmpty then [] else .text " WHERE ".toList :: [.text " AND ".toList].intercalate parts

def countLayout (r : Resource) (params : Parameters) : List Piece :=
  .text r.count.toList :: whereLayout (r.conditionLayouts params)

def windowLayout (order : Order) : List Piece :=
  [.text (" ORDER BY ".toList ++ order.text.toList ++ " LIMIT ".toList), .mark none,
    .text " OFFSET ".toList, .mark none]

def pageLayout (r : Resource) (params : Parameters) : List Piece :=
  .text r.select.toList :: whereLayout (r.conditionLayouts params) ++
    windowLayout (r.resolve params).value.order

@[simp] theorem plain_comparisonLayout (column : String) (c : Comparison) :
    plain (comparisonLayout column c) = column.toList ++ ' ' :: c.sql.toList ++ " ?".toList := by
  simp [plain, write, comparisonLayout]

theorem map_filterMap_map {α β γ δ : Type} {f : α → Option β} {g : α → β → γ} {k : γ → δ}
    {l : α → δ} (h : ∀ a b, k (g a b) = l a) (as : List α) :
    (as.filterMap fun a => (f a).map (g a)).map k = (as.filter fun a => (f a).isSome).map l := by
  induction as with
  | nil => rfl
  | cons a as ih =>
    rw [List.filterMap_cons, List.filter_cons]
    cases f a with
    | none => simpa using ih
    | some b => simpa [h a b] using ih

theorem texts_equalities (r : Resource) (params : Parameters) :
    ((EqualityRule.applyAll r.equality (params.pick (r.equality.map (·.key)))).value.map
        fun c => c.text.toList) =
      (r.rulesMet params).map fun rule => plain (comparisonLayout rule.column .equal) := by
  have hfound : (r.equality.filterMap fun rule =>
        (((params.pick (r.equality.map (·.key))).get? rule.key).bind rule.kind.read?).map
          rule.clause) =
      r.equality.filterMap fun rule =>
        ((params.stripped? rule.key).bind rule.kind.read?).map rule.clause :=
    List.filterMap_congr fun rule hrule => by rw [EqualityRule.get?_pick_key hrule]
  rw [EqualityRule.value_applyAll, hfound]
  apply map_filterMap_map
  intro rule v
  simp [EqualityRule.clause, Comparison.sql]

@[simp] theorem plain_groupLayout (columns : List String) :
    plain (groupLayout columns) =
      '(' :: " OR ".toList.intercalate (columns.map Search.matchText) ++ [')'] := by
  have hcolumns : (columns.map fun column => comparisonLayout column .like).map plain =
      columns.map Search.matchText := by
    rw [List.map_map]
    apply List.map_congr_left
    intro column _
    simp [Search.matchText, Comparison.sql]
  simp only [plain] at hcolumns
  simp only [plain, groupLayout, List.cons_append, write, write_append, write_intercalate, hcolumns,
    List.append_nil]
  rfl

theorem texts_search (r : Resource) (params : Parameters) :
    ((Restriction.taken [Search.clause r.searchColumns (Search.term? params)]).map
        fun c => c.text.toList) =
      if r.isSearched params then [plain (groupLayout r.searchColumns)] else [] := by
  unfold isSearched Search.clause
  split
  · rfl
  · split
    · rfl
    · simp [Restriction.taken, Clause.isEmpty]

theorem plain_conditionLayouts (r : Resource) (params : Parameters) :
    (r.conditionLayouts params).map plain =
      (Restriction.taken (r.clauses params)).map fun c => c.text.toList := by
  rw [taken_clauses, List.map_append, List.map_append, texts_equalities, texts_search]
  have hconditions : ((Filter.conditions r.fields params).value.map Condition.clause).map
        (fun c => c.text.toList) =
      (Filter.conditions r.fields params).value.map
        fun c => plain (comparisonLayout c.column c.comparison) := by
    simp [Condition.clause, Condition.text, Function.comp_def]
  rw [hconditions, conditionLayouts]
  cases r.isSearched params <;> simp [Function.comp_def]

@[simp] theorem plain_whereLayout (parts : List (List Piece)) :
    plain (whereLayout parts) = Restriction.conjunction (parts.map plain) := by
  unfold whereLayout Restriction.conjunction
  cases parts with
  | nil => rfl
  | cons part parts =>
    simp only [plain, List.isEmpty_cons, Bool.false_eq_true, if_false, write, write_intercalate,
      List.map_cons]
    simp

theorem render_resolve (r : Resource) (params : Parameters) :
    (r.resolve params).value.restriction.render =
      plain (whereLayout (r.conditionLayouts params)) := by
  rw [plain_whereLayout, plain_conditionLayouts, restriction_resolve, Restriction.pushAll_eq]
  simp [Restriction.render, Function.comp_def]

@[simp] theorem plain_countLayout (r : Resource) (params : Parameters) :
    plain (r.countLayout params) =
      r.count.toList ++ (r.resolve params).value.restriction.render := by
  rw [render_resolve]
  rfl

theorem plain_pageLayout (r : Resource) (params : Parameters) :
    plain (r.pageLayout params) =
      r.select.toList ++ (r.resolve params).value.restriction.render ++ " ORDER BY ".toList ++
        (r.resolve params).value.order.text.toList ++ " LIMIT ? OFFSET ?".toList := by
  rw [render_resolve]
  simp [plain, pageLayout, windowLayout, write]

theorem sql_countStatement (r : Resource) (d : Dialect) (params : Parameters) :
    (r.countStatement d (r.resolve params).value).sql =
      String.ofList (d.adapt (plain (r.countLayout params))) := by
  rw [plain_countLayout]
  rfl

theorem sql_pageStatement (r : Resource) (d : Dialect) (params : Parameters) :
    (r.pageStatement d (r.resolve params).value).sql =
      String.ofList (d.adapt (plain (r.pageLayout params))) := by
  rw [plain_pageLayout]
  rfl

@[simp] theorem marks_whereLayout (parts : List (List Piece)) :
    marks (whereLayout parts) = parts.flatMap marks := by
  unfold whereLayout
  cases parts with
  | nil => rfl
  | cons part parts => exact marks_intercalate _ (part :: parts)

@[simp] theorem marks_groupLayout (columns : List String) :
    marks (groupLayout columns) = columns.map fun _ => some .like := by
  simp only [groupLayout, List.cons_append, marks, marks_append, marks_intercalate, List.append_nil]
  simp [List.flatMap_map, comparisonLayout, marks, ← List.map_eq_flatMap]

theorem marks_countLayout (r : Resource) (params : Parameters) :
    marks (r.countLayout params) =
      (r.rulesMet params).map (fun _ => some .equal) ++
        (if r.isSearched params then r.searchColumns.map fun _ => some .like else []) ++
        (Filter.conditions r.fields params).value.map fun c => some c.comparison := by
  simp only [countLayout, marks, marks_whereLayout, conditionLayouts, List.flatMap_append]
  cases r.isSearched params <;>
    simp [List.flatMap_map, comparisonLayout, marks, ← List.map_eq_flatMap]

@[simp] theorem marks_pageLayout (r : Resource) (params : Parameters) :
    marks (r.pageLayout params) = marks (r.countLayout params) ++ [none, none] := by
  simp [pageLayout, countLayout, windowLayout, marks]

theorem fits_comparisonLayout (column : String) (c : Comparison) :
    Fits (comparisonLayout column c) := by
  intro lead rest hfollows hrest
  refine ⟨?_, hfollows, hrest []⟩
  rw [like_suffix_iff, Option.some_inj]

theorem fits_groupLayout (columns : List String) : Fits (groupLayout columns) := by
  have hcolumns : ∀ part ∈ columns.map fun column => comparisonLayout column .like, Fits part := by
    intro part hpart
    obtain ⟨column, -, rfl⟩ := List.mem_map.1 hpart
    exact fits_comparisonLayout column .like
  exact ((Fits.intercalate (by decide) hcolumns).text_cons ['(']).append_text (by decide)

theorem fits_conditionLayouts (r : Resource) (params : Parameters) :
    ∀ part ∈ r.conditionLayouts params, Fits part :=
  forall_conditionLayouts (fun rule _ => fits_comparisonLayout rule.column .equal)
    (fits_groupLayout r.searchColumns) fun c _ => fits_comparisonLayout c.column c.comparison

theorem fits_whereLayout {parts : List (List Piece)} (h : ∀ part ∈ parts, Fits part) :
    Fits (whereLayout parts) := by
  unfold whereLayout
  split
  · exact fun lead rest _ hrest => hrest lead
  · exact (Fits.intercalate (by decide) h).text_cons _

theorem follows_windowLayout (order : Order) : Follows (windowLayout order) :=
  .inr ⟨" ORDER BY ".toList, by decide, order.text.toList ++ " LIMIT ".toList, _, by
    rw [windowLayout, List.append_assoc]⟩

theorem placed_windowLayout (order : Order) (lead : List Char) :
    Placed lead (windowLayout order) := by
  have hlimit : ¬ likeKeyword <:+ lead ++
      (" ORDER BY ".toList ++ order.text.toList ++ " LIMIT ".toList) := by
    rw [← List.append_assoc]
    exact not_like_suffix (by decide) (by decide) _
  have hoffset : ¬ likeKeyword <:+ [] ++ " OFFSET ".toList := by decide
  exact ⟨iff_of_false hlimit (by simp), follows_text (by decide) _,
    iff_of_false hoffset (by simp), .inl rfl, trivial⟩

theorem placed_countLayout (r : Resource) (params : Parameters) :
    Placed [] (r.countLayout params) := by
  have h := fits_whereLayout (r.fits_conditionLayouts params) r.count.toList [] (.inl rfl)
    fun _ => trivial
  rwa [List.append_nil] at h

theorem placed_pageLayout (r : Resource) (params : Parameters) :
    Placed [] (r.pageLayout params) :=
  fits_whereLayout (r.fits_conditionLayouts params) r.select.toList _ (follows_windowLayout _)
    (placed_windowLayout _)

/-- No text of the resource that can appear in a statement has the character. -/
structure Avoids (c : Char) (r : Resource) : Prop where
  select : c ∉ r.select.toList
  count : c ∉ r.count.toList
  equality : ∀ rule ∈ r.equality, c ∉ rule.column.toList
  searched : ∀ column ∈ r.searchColumns, c ∉ column.toList
  fields : ∀ name field, r.fields.get? name = some field → c ∉ field.column.toList
  sortable : ∀ name column, (name, column) ∈ r.sorting.columns → c ∉ column.toList
  fallback : c ∉ r.sorting.fallback.toList

theorem templates_avoids {c : Char} (h : c = '?' ∨ c = '$') : templates.Avoids c := by
  have hfields : ∀ entry ∈ templates.fields.entries, c ∉ entry.2.column.toList := by
    rcases h with rfl | rfl <;> decide
  have hsortable : ∀ entry ∈ templates.sorting.columns, c ∉ entry.2.toList := by
    rcases h with rfl | rfl <;> decide
  have hrest : c ∉ templates.select.toList ∧ c ∉ templates.count.toList ∧
      (∀ rule ∈ templates.equality, c ∉ rule.column.toList) ∧
      (∀ column ∈ templates.searchColumns, c ∉ column.toList) ∧
      c ∉ templates.sorting.fallback.toList := by
    rcases h with rfl | rfl <;> decide
  exact
    { select := hrest.1
      count := hrest.2.1
      equality := hrest.2.2.1
      searched := hrest.2.2.2.1
      fields := fun name field hf => hfields _ (Table.mem_entries_of_get? hf)
      sortable := fun name column hlisted => hsortable _ hlisted
      fallback := hrest.2.2.2.2 }

theorem not_mem_bare_append {c : Char} {ps qs : List Piece} :
    c ∉ bare (ps ++ qs) ↔ c ∉ bare ps ∧ c ∉ bare qs := by
  rw [bare, write_append, List.mem_append, not_or]

theorem not_mem_bare_text_cons {c : Char} {s : List Char} {ps : List Piece} :
    c ∉ bare (.text s :: ps) ↔ c ∉ s ∧ c ∉ bare ps := by
  rw [bare, write, List.mem_append, not_or]

theorem not_mem_bare_intercalate {c : Char} {word : List Char} (hword : c ∉ word)
    {parts : List (List Piece)} (h : ∀ part ∈ parts, c ∉ bare part) :
    c ∉ bare ([.text word].intercalate parts) := by
  induction parts with
  | nil => exact List.not_mem_nil
  | cons part parts ih =>
    have hpart := h part (by simp)
    cases parts with
    | nil => simpa using hpart
    | cons next parts =>
      have hparts := ih fun other ho => h other (by simp [ho])
      rw [List.intercalate_cons_cons, List.append_assoc, not_mem_bare_append]
      exact ⟨hpart, not_mem_bare_text_cons.2 ⟨hword, hparts⟩⟩

variable {c : Char} (hc : c = '?' ∨ c = '$')

include hc

theorem not_mem_bare_comparison {column : String} (h : c ∉ column.toList) (o : Comparison) :
    c ∉ bare (comparisonLayout column o) := by
  have hblank : c ≠ ' ' := by rcases hc with rfl | rfl <;> decide
  have hsql : c ∉ o.sql.toList := by rcases hc with rfl | rfl <;> cases o <;> decide
  simp [comparisonLayout, bare, write, h, hblank, hsql]

theorem not_mem_bare_group {columns : List String} (h : ∀ column ∈ columns, c ∉ column.toList) :
    c ∉ bare (groupLayout columns) := by
  have hwords : c ∉ ['('] ∧ c ∉ " OR ".toList ∧ c ∉ [')'] := by
    rcases hc with rfl | rfl <;> decide
  have hcolumns : ∀ part ∈ columns.map fun column => comparisonLayout column .like,
      c ∉ bare part := by
    intro part hpart
    obtain ⟨column, hcolumn, rfl⟩ := List.mem_map.1 hpart
    exact not_mem_bare_comparison hc (h column hcolumn) .like
  exact not_mem_bare_append.2
    ⟨not_mem_bare_text_cons.2 ⟨hwords.1, not_mem_bare_intercalate hwords.2.1 hcolumns⟩,
      not_mem_bare_text_cons.2 ⟨hwords.2.2, List.not_mem_nil⟩⟩

theorem not_mem_bare_conditions {r : Resource} (h : r.Avoids c) (params : Parameters) :
    ∀ part ∈ r.conditionLayouts params, c ∉ bare part := by
  refine forall_conditionLayouts ?_ (not_mem_bare_group hc h.searched) ?_
  · exact fun rule hrule => not_mem_bare_comparison hc (h.equality rule hrule) .equal
  · intro condition hcondition
    obtain ⟨name, field, hfield, hcolumn⟩ := Filter.registered_of_mem_conditions hcondition
    exact not_mem_bare_comparison hc (hcolumn ▸ h.fields name field hfield) condition.comparison

theorem not_mem_bare_where {parts : List (List Piece)} (h : ∀ part ∈ parts, c ∉ bare part) :
    c ∉ bare (whereLayout parts) := by
  have hwords : c ∉ " WHERE ".toList ∧ c ∉ " AND ".toList := by rcases hc with rfl | rfl <;> decide
  unfold whereLayout
  split
  · exact List.not_mem_nil
  · exact not_mem_bare_text_cons.2 ⟨hwords.1, not_mem_bare_intercalate hwords.2 h⟩

theorem not_mem_order {r : Resource} (h : r.Avoids c) (params : Parameters) :
    c ∉ (r.resolve params).value.order.text.toList := by
  have hblank : c ≠ ' ' := by rcases hc with rfl | rfl <;> decide
  have hdirection : c ∉ (r.resolve params).value.order.direction.sql.toList := by
    cases (r.resolve params).value.order.direction <;> rcases hc with rfl | rfl <;> decide
  have hcolumn : c ∉ (r.resolve params).value.order.column.toList := by
    rcases r.sorting.column_resolve_listed params with hf | ⟨name, hlisted⟩
    · exact (congrArg String.toList hf) ▸ h.fallback
    · exact h.sortable name _ hlisted
  simp [Order.text, hblank, hdirection, hcolumn]

theorem not_mem_bare_countLayout {r : Resource} (h : r.Avoids c) (params : Parameters) :
    c ∉ bare (r.countLayout params) :=
  not_mem_bare_text_cons.2 ⟨h.count, not_mem_bare_where hc (not_mem_bare_conditions hc h params)⟩

theorem not_mem_bare_pageLayout {r : Resource} (h : r.Avoids c) (params : Parameters) :
    c ∉ bare (r.pageLayout params) := by
  have hwords : c ∉ " ORDER BY ".toList ∧ c ∉ " LIMIT ".toList ∧ c ∉ " OFFSET ".toList := by
    rcases hc with rfl | rfl <;> decide
  have horder := not_mem_order hc h params
  have hwindow : c ∉ bare (windowLayout (r.resolve params).value.order) := by
    simp only [windowLayout, bare, write, List.mem_append, not_or, List.not_mem_nil,
      not_false_eq_true, true_and, and_true]
    exact ⟨⟨⟨hwords.1, horder⟩, hwords.2.1⟩, hwords.2.2⟩
  have hwhere := not_mem_bare_where hc (not_mem_bare_conditions hc h params)
  exact not_mem_bare_append.2 ⟨not_mem_bare_text_cons.2 ⟨h.select, hwhere⟩, hwindow⟩

end Resource
end Listing
