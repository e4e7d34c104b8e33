import Listing.Sql.Statement

/-!
One condition in two statements. The count and the page of a listing are adapted to a dialect as
whole texts, each with a text of its own in front of the condition. The condition comes out the same
in both, as if it had been adapted alone, and the same values are bound to it.
-/

set_option autoImplicit false

namespace Listing.Sql

theorem take_cons_eq_of_take_eq {before other : List Char} {n : Nat}
    (h : before.take n = other.take n) (c : Char) :
    (c :: before).take n = (c :: other).take n := by
  cases n with
  | zero => rfl
  | succ n =>
    have hfewer := congrArg (List.take n) h
    rw [List.take_take, List.take_take, Nat.min_eq_left (Nat.le_succ n)] at hfewer
    rw [List.take_succ_cons, List.take_succ_cons, hfewer]

theorem isPrefixOf_take (word before : List Char) :
    word.isPrefixOf (before.take word.length) = word.isPrefixOf before := by
  rw [Bool.eq_iff_iff, List.isPrefixOf_iff_prefix, List.isPrefixOf_iff_prefix,
    List.prefix_take_iff]
  exact and_iff_left (Nat.le_refl _)

theorem declareFrom_eq_of_take_eq {before other : List Char}
    (h : before.take likeKeyword.length = other.take likeKeyword.length) (s : List Char) :
    declareFrom before s = declareFrom other s := by
  induction s generalizing before other with
  | nil => rfl
  | cons c s ih =>
    have hkeyword :
        likeKeyword.reverse.isPrefixOf before = likeKeyword.reverse.isPrefixOf other := by
      rw [← isPrefixOf_take _ before, ← isPrefixOf_take _ other, List.length_reverse, h]
    simp only [declareFrom]
    rw [hkeyword, ih (take_cons_eq_of_take_eq h c)]

/-- A word without placeholders that is no shorter than the keyword hides what stands before it. -/
theorem declareFrom_word_append {word : List Char} (hmark : '?' ∉ word)
    (hlong : likeKeyword.length ≤ word.length) (before rest : List Char) :
    declareFrom before (word ++ rest) = declareFrom [] (word ++ rest) := by
  have htake : (word.reverse ++ before).take likeKeyword.length =
      (word.reverse ++ []).take likeKeyword.length := by
    rw [List.take_append_of_le_length (by simpa using hlong),
      List.take_append_of_le_length (by simpa using hlong)]
  rw [declareFrom_append, declareFrom_append, declareFrom_of_not_mem hmark,
    declareFrom_of_not_mem hmark, declareFrom_eq_of_take_eq htake]

theorem declareFrom_render (before : List Char) (r : Restriction) :
    declareFrom before r.render = declareEscapes r.render := by
  unfold Restriction.render Restriction.conjunction declareEscapes
  split
  · rfl
  · exact declareFrom_word_append (by decide) (by decide) before _

theorem adapt_append_render {d : Dialect} {own : List Char} (h : d = .postgres → '?' ∉ own)
    (r : Restriction) : d.adapt (own ++ r.render) = d.adapt own ++ d.adapt r.render := by
  cases d with
  | mysql => rfl
  | sqlite =>
    change declareFrom [] (own ++ r.render) = declareFrom [] own ++ declareEscapes r.render
    rw [declareFrom_append, declareFrom_render]
  | postgres =>
    have hown : '?' ∉ own := h rfl
    change numberFrom 0 (own ++ r.render) = numberFrom 0 own ++ numberFrom 0 r.render
    rw [numberFrom_append, List.count_eq_zero.2 hown]

theorem exists_adapt_append (d : Dialect) (s : List Char) {word : List Char} (h : '?' ∉ word)
    (rest : List Char) : ∃ after, d.adapt (s ++ word ++ rest) = d.adapt s ++ word ++ after := by
  cases d with
  | mysql => exact ⟨rest, rfl⟩
  | sqlite =>
    refine ⟨declareFrom ((s ++ word).reverse ++ []) rest, ?_⟩
    change declareFrom [] (s ++ word ++ rest) = declareFrom [] s ++ word ++ _
    rw [declareFrom_append, declareFrom_append, declareFrom_of_not_mem h]
  | postgres =>
    refine ⟨numberFrom (0 + (s ++ word).count '?') rest, ?_⟩
    change numberFrom 0 (s ++ word ++ rest) = numberFrom 0 s ++ word ++ _
    rw [numberFrom_append, numberFrom_append, numberFrom_of_not_mem h]

@[simp] theorem count_declareFrom (before s : List Char) :
    (declareFrom before s).count '?' = s.count '?' := by
  induction s generalizing before with
  | nil => rfl
  | cons c s ih =>
    have hdeclaration : escapeDeclaration.count '?' = 0 := by decide
    unfold declareFrom
    split
    · rw [List.cons_append, List.count_cons, List.count_cons, List.count_append, hdeclaration,
        Nat.zero_add, ih]
    · rw [List.count_cons, List.count_cons, ih]

theorem count_adapt {d : Dialect} {own : List Char} (h : d = .postgres → '?' ∉ own) :
    (d.adapt own).count '?' = own.count '?' := by
  cases d with
  | mysql => rfl
  | sqlite => exact count_declareFrom [] own
  | postgres => exact congrArg (List.count '?') (numberFrom_of_not_mem (h rfl) 0)

/-- A number in the condition says itself which value it takes. Question marks take the values in
order, so those of the condition are bound alike in both if as many stand before the condition. -/
theorem count_and_page_share_condition (d : Dialect) (r : Restriction)
    (select count orderBy : String) (limit offset : UInt64)
    (h : d = .postgres → '?' ∉ select.toList ∧ '?' ∉ count.toList) :
    let page := Statement.page d select r orderBy limit offset
    let total := Statement.count d count r
    let shared := d.adapt r.render
    total.sql.toList = d.adapt count.toList ++ shared ∧
    (∃ rest, page.sql.toList = d.adapt select.toList ++ shared ++ " ORDER BY ".toList ++ rest) ∧
    page.values = total.values ++ [.ofCount limit, .ofCount offset] ∧
    (∀ (i : Nat) (v : Value), total.values[i]? = some v → page.values[i]? = some v) ∧
    (select.toList.count '?' = count.toList.count '?' →
      ∀ before after, shared = before ++ '?' :: after →
      ∀ v, total.values[(d.adapt count.toList ++ before).count '?']? = some v →
        page.values[(d.adapt select.toList ++ before).count '?']? = some v) := by
  intro page total shared
  have hselect : d = .postgres → '?' ∉ select.toList := fun hd => (h hd).1
  have hcount : d = .postgres → '?' ∉ count.toList := fun hd => (h hd).2
  have hshared (i : Nat) (v : Value) (hv : total.values[i]? = some v) :
      page.values[i]? = some v := by
    have hbound := (List.getElem?_eq_some_iff.1 hv).1
    have hpage : page.values = total.values ++ [.ofCount limit, .ofCount offset] := rfl
    rw [hpage, List.getElem?_append_left hbound]
    exact hv
  refine ⟨?_, ?_, rfl, hshared, ?_⟩
  · rw [← adapt_append_render hcount r]
    exact String.toList_ofList
  · have horder : '?' ∉ " ORDER BY ".toList := by decide
    obtain ⟨rest, hrest⟩ := exists_adapt_append d (select.toList ++ r.render) horder
      (orderBy.toList ++ " LIMIT ? OFFSET ?".toList)
    refine ⟨rest, ?_⟩
    rw [← adapt_append_render hselect r, ← hrest, ← List.append_assoc]
    exact String.toList_ofList
  · intro hmarks before after _ v hv
    rw [List.count_append, count_adapt hcount, ← hmarks] at hv
    rw [List.count_append, count_adapt hselect]
    exact hshared _ v hv

theorem count_and_page_share_condition_numbered :
    let r : Restriction := { texts := ["a = ?", "b LIKE ?"], values := [.integer 1, .text "%x%"] }
    let page := Statement.page .postgres "SELECT a FROM t" r "a ASC" 10 20
    let total := Statement.count .postgres "SELECT COUNT(*) FROM t" r
    '?' ∉ "SELECT a FROM t".toList ∧ '?' ∉ "SELECT COUNT(*) FROM t".toList ∧
      total.sql.toList = "SELECT COUNT(*) FROM t WHERE a = $1 AND b LIKE $2".toList ∧
      page.values = total.values ++ [.ofCount 10, .ofCount 20] := by
  intro r page total
  have hselect : '?' ∉ "SELECT a FROM t".toList := by decide
  have hcount : '?' ∉ "SELECT COUNT(*) FROM t".toList := by decide
  have hshared := count_and_page_share_condition .postgres r "SELECT a FROM t"
    "SELECT COUNT(*) FROM t" "a ASC" 10 20 fun _ => ⟨hselect, hcount⟩
  exact ⟨hselect, hcount, hshared.1.trans (by decide), hshared.2.2.1⟩

end Listing.Sql
