import Listing.Sorting
import Mathlib.Data.List.Forall2

set_option autoImplicit false

namespace Listing

/-- Of the pairs of a name the first one has this column. -/
def FirstNamed (columns : List (String × String)) (name column : String) : Prop :=
  ∃ before after, columns = before ++ (name, column) :: after ∧ ∀ pair ∈ before, name ≠ pair.1

namespace SortRules

def names (rules : SortRules) : List String :=
  rules.columns.map Prod.fst

theorem column?_eq_some_iff {rules : SortRules} {name column : String} :
    rules.column? name = some column ↔ FirstNamed rules.columns name column := by
  simp only [column?, List.lookup_eq_some_iff, FirstNamed, bne_iff_ne]

@[simp] theorem column?_eq_none_iff {rules : SortRules} {name : String} :
    rules.column? name = none ↔ name ∉ rules.names := by
  rw [column?, List.lookup_eq_none_iff, names]
  constructor
  · intro h hmem
    obtain ⟨pair, hpair, rfl⟩ := List.mem_map.1 hmem
    exact bne_iff_ne.1 (h pair hpair) rfl
  · intro h pair hpair
    exact bne_iff_ne.2 fun he => h (he ▸ List.mem_map_of_mem hpair)

def IsFallback (rules : SortRules) (column : String) : Prop :=
  FirstNamed rules.columns rules.fallback column ∨
    rules.fallback ∉ rules.names ∧ column = rules.fallback

theorem isFallback_fallbackColumn (rules : SortRules) : rules.IsFallback rules.fallbackColumn := by
  unfold fallbackColumn
  cases h : rules.column? rules.fallback with
  | some column => exact .inl (column?_eq_some_iff.1 h)
  | none => exact .inr ⟨column?_eq_none_iff.1 h, rfl⟩

def NamesNone (rules : SortRules) (params : Parameters) : Prop :=
  ∀ name ∈ params.get? "sortField", name ∉ rules.names

instance (rules : SortRules) (params : Parameters) : Decidable (rules.NamesNone params) :=
  inferInstanceAs (Decidable (∀ name ∈ params.get? "sortField", name ∉ rules.names))

theorem namesNone_iff {rules : SortRules} {params : Parameters} :
    rules.NamesNone params ↔ (params.get? "sortField").bind rules.column? = none := by
  simp [NamesNone, Option.bind_eq_none_iff]

theorem column_of_namesNone {rules : SortRules} {params : Parameters} (h : rules.NamesNone params) :
    (rules.resolve params).value.column = rules.fallbackColumn := by
  rw [column_resolve, namesNone_iff.1 h, Option.getD_none]

theorem direction_resolve (rules : SortRules) (params : Parameters) :
    (rules.resolve params).value.direction = rules.resolveDirection params :=
  rfl

theorem column_named_or_fallback (rules : SortRules) (params : Parameters) :
    (∃ name, params.get? "sortField" = some name ∧
      FirstNamed rules.columns name (rules.resolve params).value.column) ∨
    rules.NamesNone params ∧ rules.IsFallback (rules.resolve params).value.column := by
  cases h : (params.get? "sortField").bind rules.column? with
  | some column =>
    obtain ⟨name, hname, hcolumn⟩ := Option.bind_eq_some_iff.1 h
    rw [column_resolve, h, Option.getD_some]
    exact .inl ⟨name, hname, column?_eq_some_iff.1 hcolumn⟩
  | none =>
    have hnone := namesNone_iff.2 h
    rw [column_of_namesNone hnone]
    exact .inr ⟨hnone, rules.isFallback_fallbackColumn⟩

end SortRules

/-- Characters that are the same or the two cases of one letter of ASCII. -/
def EqualButCase (c d : Char) : Prop :=
  c = d ∨ c.isUpper = true ∧ c.toNat + 32 = d.toNat ∨ d.isUpper = true ∧ d.toNat + 32 = c.toNat

theorem isUpper_iff {c : Char} : c.isUpper = true ↔ 65 ≤ c.toNat ∧ c.toNat ≤ 90 := by
  change decide (c.val ≥ 'A'.val ∧ c.val ≤ 'Z'.val) = true ↔ _
  rw [decide_eq_true_iff, ge_iff_le, UInt32.le_iff_toNat_le, UInt32.le_iff_toNat_le]
  rfl

theorem toNat_toLower (c : Char) :
    c.toLower.toNat = if c.isUpper = true then c.toNat + 32 else c.toNat := by
  unfold Char.toLower
  by_cases hc : c.isUpper = true
  · have hbound := isUpper_iff.1 hc
    have hrange : c.val ≥ 'A'.val ∧ c.val ≤ 'Z'.val := of_decide_eq_true hc
    rw [dif_pos hrange, if_pos hc]
    change (c.val + 32).toNat = c.val.toNat + 32
    rw [UInt32.toNat_add]
    exact Nat.mod_eq_of_lt (by change c.toNat + 32 < _; omega)
  · have hrange : ¬ (c.val ≥ 'A'.val ∧ c.val ≤ 'Z'.val) := fun h => hc (decide_eq_true h)
    rw [dif_neg hrange, if_neg hc]

theorem toLower_eq_iff {c d : Char} (hd : d.isUpper = false) :
    c.toLower = d ↔ EqualButCase c d := by
  rw [← Char.toNat_inj, toNat_toLower]
  unfold EqualButCase
  by_cases hc : c.isUpper = true
  · have hne : c ≠ d := by
      rintro rfl
      exact Bool.false_ne_true (hd.symm.trans hc)
    simp [hc, hd, hne]
  · simp [hc, hd, Char.toNat_inj]

namespace Direction

def word : Direction → String
  | ascending => "asc"
  | descending => "desc"

def Named (d : Direction) (text : String) : Prop :=
  List.Forall₂ EqualButCase text.toList d.word.toList

theorem map_toLower_eq_iff {s word : List Char} (h : ∀ d ∈ word, d.isUpper = false) :
    s.map Char.toLower = word ↔ List.Forall₂ EqualButCase s word := by
  induction word generalizing s with
  | nil => simp
  | cons d word ih =>
    obtain ⟨hd, hword⟩ := List.forall_mem_cons.1 h
    cases s with
    | nil => simp
    | cons c s =>
      rw [List.map_cons, List.cons.injEq, toLower_eq_iff hd, ih hword, List.forall₂_cons]

theorem read?_eq_some_iff {text : String} {d : Direction} : read? text = some d ↔ d.Named text := by
  have hword : text.toList.map Char.toLower = d.word.toList ↔ d.Named text :=
    map_toLower_eq_iff (by cases d <;> simp [word])
  rw [← hword]
  dsimp only [read?]
  split
  · rename_i hascending
    rw [hascending]
    cases d <;> decide
  split
  · rename_i hdescending
    rw [hdescending]
    cases d <;> decide
  · cases d <;> simpa [word]

end Direction

namespace SortRules

theorem direction_named_or_default (rules : SortRules) (params : Parameters) :
    (∃ text, params.get? "sortOrder" = some text ∧
      (rules.resolve params).value.direction.Named text) ∨
    (∀ text ∈ params.get? "sortOrder", ∀ d : Direction, ¬ d.Named text) ∧
      (rules.resolve params).value.direction = rules.direction := by
  rw [direction_resolve, resolveDirection]
  cases h : (params.get? "sortOrder").bind Direction.read? with
  | some d =>
    obtain ⟨text, htext, hd⟩ := Option.bind_eq_some_iff.1 h
    exact .inl ⟨text, htext, Direction.read?_eq_some_iff.1 hd⟩
  | none =>
    refine .inr ⟨fun text htext d hd => ?_, rfl⟩
    rw [Option.mem_def.1 htext, Option.bind_some, Direction.read?_eq_some_iff.2 hd] at h
    exact Option.some_ne_none d h

theorem column_congr (rules : SortRules) {p q : Parameters}
    (h : p.get? "sortField" = q.get? "sortField") :
    (rules.resolve p).value.column = (rules.resolve q).value.column := by
  rw [column_resolve, column_resolve, h]

theorem direction_congr (rules : SortRules) {p q : Parameters}
    (h : p.get? "sortOrder" = q.get? "sortOrder") :
    (rules.resolve p).value.direction = (rules.resolve q).value.direction := by
  rw [direction_resolve, direction_resolve, resolveDirection, h, resolveDirection]

end SortRules

theorem Order.text_eq (o : Order) :
    o.text = o.column ++ match o.direction with
      | .ascending => " ASC"
      | .descending => " DESC" := by
  apply String.toList_inj.1
  cases h : o.direction <;> simp [Order.text, h, Direction.sql]

/-- A request chooses among the columns of the rules and says which way the rows go, and this is all
that an order has of it. -/
theorem SortRules.order_comes_from_the_rules (rules : SortRules) :
    (∀ params : Parameters,
      let order := (rules.resolve params).value
      ((∃ name, params.get? "sortField" = some name ∧
          FirstNamed rules.columns name order.column) ∨
        rules.NamesNone params ∧ rules.IsFallback order.column) ∧
      ((∃ text, params.get? "sortOrder" = some text ∧ order.direction.Named text) ∨
        (∀ text ∈ params.get? "sortOrder", ∀ d : Direction, ¬ d.Named text) ∧
          order.direction = rules.direction) ∧
      order.text = order.column ++ match order.direction with
        | .ascending => " ASC"
        | .descending => " DESC") ∧
    (∀ p q : Parameters, p.get? "sortOrder" = q.get? "sortOrder" →
      rules.NamesNone p → rules.NamesNone q → (rules.resolve p).value = (rules.resolve q).value) ∧
    ∀ p q : Parameters, p.get? "sortField" = q.get? "sortField" →
      (rules.resolve p).value.column = (rules.resolve q).value.column := by
  refine ⟨fun params => ⟨rules.column_named_or_fallback params,
    rules.direction_named_or_default params, Order.text_eq _⟩, fun p q horder hp hq => ?_,
    fun p q hfield => rules.column_congr hfield⟩
  have hcolumn : (rules.resolve p).value.column = (rules.resolve q).value.column := by
    rw [column_of_namesNone hp, column_of_namesNone hq]
  exact congrArg₂ Order.mk hcolumn (rules.direction_congr horder)

theorem SortRules.order_comes_from_the_rules_unlisted :
    let rules : SortRules :=
      { columns := [("name", "p.name"), ("date", "p.date"), ("name", "p.other")]
        fallback := "p.id" }
    let column : Parameters := { entries := [("sortField", "p.name"), ("sortOrder", "aSc")] }
    let capitals : Parameters := { entries := [("sortOrder", "aSc"), ("sortField", "NAME")] }
    let listed : Parameters := { entries := [("sortField", "name")] }
    let reversed : Parameters := { entries := [("sortField", "name"), ("sortOrder", "asc")] }
    (rules.resolve column).value = { column := "p.id", direction := .ascending } ∧
      (rules.resolve column).value = (rules.resolve capitals).value ∧
      (rules.resolve listed).value = { column := "p.name", direction := .descending } ∧
      (rules.resolve listed).value.column = (rules.resolve reversed).value.column := by
  intro rules column capitals listed reversed
  obtain ⟨-, hunlisted, hreversed⟩ := order_comes_from_the_rules rules
  exact ⟨by decide +kernel, hunlisted column capitals rfl (by decide) (by decide),
    by decide +kernel, hreversed listed reversed rfl⟩

end Listing
