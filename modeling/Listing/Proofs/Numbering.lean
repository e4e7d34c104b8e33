import Listing.Proofs.Alignment
import Listing.Proofs.Layout

/-!
Placeholders of PostgreSQL. A reader takes a dollar sign with all digits after it for a parameter.
In the statements of a request it finds the numbers from one to the number of values, in order and
each once, since no digit comes after a placeholder; question marks in their places give back the
statement as it was before it was adapted.
-/

set_option autoImplicit false

namespace Listing

open Sql Numeric

namespace Sql

inductive Symbol
  | char (c : Char)
  | parameter (digits : List Char)

namespace Symbol

def digits? : Symbol → Option (List Char)
  | char _ => none
  | parameter digits => some digits

def unnumbered : Symbol → Char
  | char c => c
  | parameter _ => '?'

end Symbol

def symbols (s : List Char) : List Symbol :=
  match s with
  | [] => []
  | c :: rest =>
    if c = '$' then
      .parameter (rest.takeWhile Char.isDigit) :: symbols (rest.dropWhile Char.isDigit)
    else .char c :: symbols rest
termination_by s.length
decreasing_by
  · exact Nat.lt_succ_of_le (List.dropWhile_suffix _).length_le
  · exact Nat.lt_succ_self _

def parameters (s : List Char) : List (List Char) :=
  (symbols s).filterMap Symbol.digits?

def unnumbered (s : List Char) : List Char :=
  (symbols s).map Symbol.unnumbered

theorem symbols_append {s : List Char} (h : '$' ∉ s) (t : List Char) :
    symbols (s ++ t) = s.map .char ++ symbols t := by
  induction s with
  | nil => rfl
  | cons c s ih =>
    obtain ⟨hc, hs⟩ := not_or.1 (mt List.mem_cons.2 h)
    rw [List.cons_append, symbols, if_neg (Ne.symm hc), ih hs]
    rfl

theorem symbols_parameter (n : Nat) {rest : List Char} (h : ∀ c ∈ rest.head?, c.isDigit = false) :
    symbols ('$' :: decimalDigits n ++ rest) = .parameter (decimalDigits n) :: symbols rest := by
  have hdigits : ∀ c ∈ decimalDigits n, c.isDigit = true := fun _ => isDigit_of_mem_decimalDigits
  have hnone : rest.takeWhile Char.isDigit = [] ∧ rest.dropWhile Char.isDigit = rest := by
    cases rest with
    | nil => exact ⟨rfl, rfl⟩
    | cons c rest => simp [h c rfl]
  rw [List.cons_append, symbols, if_pos rfl, List.takeWhile_append_of_pos hdigits,
    List.dropWhile_append_of_pos hdigits, hnone.1, hnone.2, List.append_nil]

theorem not_mem_numberFrom (count : Nat) (s : List Char) : '?' ∉ numberFrom count s := by
  induction s generalizing count with
  | nil => exact List.not_mem_nil
  | cons c s ih =>
    by_cases hc : c = '?'
    · have hdigits : '?' ∉ decimalDigits (count + 1) := fun hmem =>
        absurd (isDigit_of_mem_decimalDigits hmem) (by decide)
      simp [numberFrom, hc, hdigits, ih]
    · simp [numberFrom, hc, Ne.symm hc, ih]

namespace Piece

def numbered (count : Nat) : List Piece → List Symbol
  | [] => []
  | text s :: ps => s.map .char ++ numbered count ps
  | mark _ :: ps => .parameter (decimalDigits (count + 1)) :: numbered (count + 1) ps

theorem Follows.not_isDigit_head {rest : List Piece} (h : Follows rest) (count : Nat) :
    ∀ c ∈ (numberFrom count (plain rest)).head?, c.isDigit = false := by
  rcases h with rfl | ⟨word, hword, s, ps, rfl⟩
  · simp [plain, write, numberFrom]
  · simp only [followers, List.mem_cons, List.not_mem_nil, or_false] at hword
    rcases hword with rfl | rfl | rfl | rfl | rfl <;> simp [plain, write, numberFrom]

theorem symbols_numberFrom_plain {ps : List Piece} (hmark : '?' ∉ bare ps) (hdollar : '$' ∉ bare ps)
    {lead : List Char} (h : Placed lead ps) (count : Nat) :
    symbols (numberFrom count (plain ps)) = numbered count ps := by
  induction ps generalizing lead count with
  | nil => simp [plain, write, numberFrom, symbols, numbered]
  | cons p ps ih =>
    cases p with
    | text s =>
      obtain ⟨hs, hps⟩ := not_or.1 (mt List.mem_append.2 hmark)
      obtain ⟨hd, hpd⟩ := not_or.1 (mt List.mem_append.2 hdollar)
      have hplain : plain (text s :: ps) = s ++ plain ps := rfl
      rw [hplain, numberFrom_append, numberFrom_of_not_mem hs, List.count_eq_zero.2 hs,
        symbols_append hd, Nat.add_zero, ih hps hpd h, numbered]
    | mark c =>
      have hnumber : numberFrom count (plain (mark c :: ps)) =
          '$' :: decimalDigits (count + 1) ++ numberFrom (count + 1) (plain ps) := rfl
      rw [hnumber, symbols_parameter _ (h.2.1.not_isDigit_head _), ih hmark hdollar h.2.2, numbered]

@[simp] theorem digits_numbered (count : Nat) (ps : List Piece) :
    (numbered count ps).filterMap Symbol.digits? =
      (List.range' (count + 1) (marks ps).length).map decimalDigits := by
  induction ps generalizing count with
  | nil => rfl
  | cons p ps ih =>
    cases p with
    | text s =>
      have hs : (s.map Symbol.char).filterMap Symbol.digits? = [] := by
        simp [List.filterMap_map, Function.comp_def, Symbol.digits?]
      rw [numbered, List.filterMap_append, hs, List.nil_append, ih, marks]
    | mark c =>
      have hdigits : (Symbol.parameter (decimalDigits (count + 1))).digits? =
        some (decimalDigits (count + 1)) := rfl
      rw [numbered, List.filterMap_cons_some hdigits, ih, marks, List.length_cons,
        List.range'_succ, List.map_cons]

@[simp] theorem unnumbered_numbered (count : Nat) (ps : List Piece) :
    (numbered count ps).map Symbol.unnumbered = plain ps := by
  induction ps generalizing count with
  | nil => rfl
  | cons p ps ih =>
    cases p with
    | text s =>
      have hs : (s.map Symbol.char).map Symbol.unnumbered = s := by
        simp [Function.comp_def, Symbol.unnumbered]
      rw [numbered, List.map_append, hs, ih]
      rfl
    | mark c =>
      rw [numbered, List.map_cons, ih]
      rfl

end Piece

/-- A statement whose parameters stand for the question marks of another one with the same values,
with the numbers of the values in order. -/
structure Statement.Numbers (numbered plain : Statement) : Prop where
  no_mark : '?' ∉ numbered.sql.toList
  parameters : parameters numbered.sql.toList =
    (List.range' 1 numbered.values.length).map decimalDigits
  unnumbered : unnumbered numbered.sql.toList = plain.sql.toList
  values : numbered.values = plain.values

theorem Statement.numbers_of_layout {ps : List Piece} (hmark : '?' ∉ Piece.bare ps)
    (hdollar : '$' ∉ Piece.bare ps) (hplaced : Piece.Placed [] ps) {numbered plain : Statement}
    (hnumbered : numbered.sql = String.ofList (numberPlaceholders (Piece.plain ps)))
    (hplain : plain.sql = String.ofList (Piece.plain ps)) (hvalues : numbered.values = plain.values)
    (hcount : (Piece.marks ps).length = numbered.values.length) : numbered.Numbers plain := by
  have hsymbols := Piece.symbols_numberFrom_plain hmark hdollar hplaced 0
  refine ⟨?_, ?_, ?_, hvalues⟩
  · rw [hnumbered, String.toList_ofList]
    exact not_mem_numberFrom 0 _
  · rw [hnumbered, String.toList_ofList, Sql.parameters, numberPlaceholders, hsymbols,
      Piece.digits_numbered, hcount]
  · rw [hnumbered, hplain, String.toList_ofList, String.toList_ofList, Sql.unnumbered,
      numberPlaceholders, hsymbols, Piece.unnumbered_numbered]

end Sql

namespace Resource

theorem count_render_resolve {r : Resource} (h : r.Avoids '?') (params : Parameters) :
    (r.resolve params).value.restriction.render.count '?' =
      (r.resolve params).value.restriction.values.length := by
  have hsteps : (r.resolve params).value.restriction = Restriction.run
      [ .equalities (params.pick (r.equality.map (·.key))) r.equality,
        .searchFor r.searchColumns (Search.term? params), .filterBy r.fields params ] := rfl
  rw [hsteps]
  apply (Restriction.carries_run _).count_render
  intro s hs
  simp only [List.mem_cons, List.not_mem_nil, or_false] at hs
  rcases hs with rfl | rfl | rfl
  · exact h.equality
  · exact h.searched
  · exact h.fields

theorem length_marks_countLayout {r : Resource} (h : r.Avoids '?') (params : Parameters) :
    (Piece.marks (r.countLayout params)).length =
      (r.resolve params).value.restriction.values.length := by
  rw [← Piece.count_plain (not_mem_bare_countLayout (.inl rfl) h params), plain_countLayout,
    List.count_append, List.count_eq_zero.2 h.count, Nat.zero_add, count_render_resolve h]

theorem length_marks_pageLayout {r : Resource} (h : r.Avoids '?') (params : Parameters) :
    (Piece.marks (r.pageLayout params)).length =
      (r.resolve params).value.restriction.values.length + 2 := by
  rw [marks_pageLayout, List.length_append, length_marks_countLayout h]
  rfl

theorem placeholders_are_numbered (r : Resource) (hmark : r.Avoids '?') (hdollar : r.Avoids '$')
    (params : Parameters) :
    let selection := (r.resolve params).value
    (r.pageStatement .postgres selection).Numbers (r.pageStatement .mysql selection) ∧
      (r.countStatement .postgres selection).Numbers (r.countStatement .mysql selection) ∧
      ∀ d, (r.pageStatement d selection).values = (r.pageStatement .postgres selection).values ∧
        (r.countStatement d selection).values = (r.countStatement .postgres selection).values := by
  intro selection
  refine ⟨?_, ?_, fun _ => ⟨rfl, rfl⟩⟩
  · have hvalues : (r.pageStatement .postgres selection).values =
        selection.restriction.values ++
          [.ofCount selection.window.size, .ofCount selection.window.offset] := rfl
    have hcount : (Piece.marks (r.pageLayout params)).length =
        (r.pageStatement .postgres selection).values.length := by
      rw [length_marks_pageLayout hmark, hvalues, List.length_append]
      rfl
    exact Statement.numbers_of_layout (not_mem_bare_pageLayout (.inl rfl) hmark params)
      (not_mem_bare_pageLayout (.inr rfl) hdollar params) (r.placed_pageLayout params)
      (r.sql_pageStatement .postgres params) (r.sql_pageStatement .mysql params) rfl hcount
  · exact Statement.numbers_of_layout (not_mem_bare_countLayout (.inl rfl) hmark params)
      (not_mem_bare_countLayout (.inr rfl) hdollar params) (r.placed_countLayout params)
      (r.sql_countStatement .postgres params) (r.sql_countStatement .mysql params) rfl
      (length_marks_countLayout hmark params)

theorem placeholders_are_numbered_templates :
    let params : Parameters :=
      { entries := [("domain_id", "7"), ("search", "5$1?"),
          ("filters", "[[\"name\",\"\",\"?\"]]")] }
    let page := templates.pageStatement .postgres (templates.resolve params).value
    templates.Avoids '?' ∧ templates.Avoids '$' ∧
      parameters page.sql.toList = [['1'], ['2'], ['3'], ['4'], ['5'], ['6']] := by
  intro params page
  have hmark : templates.Avoids '?' := templates_avoids (.inl rfl)
  have hdollar : templates.Avoids '$' := templates_avoids (.inr rfl)
  have hpage := (placeholders_are_numbered templates hmark hdollar params).1
  have hlength : page.values.length = 6 := by decide +kernel
  refine ⟨hmark, hdollar, ?_⟩
  rw [hpage.parameters, hlength]
  decide

end Resource
end Listing
