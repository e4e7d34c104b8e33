import Listing.Parameters
import Listing.Proofs.Spelling
import Mathlib.Data.List.TakeWhile

set_option autoImplicit false

namespace Listing

namespace Form

/-- A pair whose value is empty may be its name alone, unless nothing would be left. -/
inductive PairSpelling : String × String → List Char → Prop
  | full {name value : String} {n v : List Char} (hname : TextSpelling name.toList n)
    (hn : '=' ∉ n) (hvalue : TextSpelling value.toList v) :
    PairSpelling (name, value) (n ++ '=' :: v)
  | short {name : String} {n : List Char} (hname : TextSpelling name.toList n) (hn : '=' ∉ n)
    (hne : name ≠ "") : PairSpelling (name, "") n

inductive QuerySpelling : List (String × String) → List Char → Prop
  | empty : QuerySpelling [] []
  | separator {pairs : List (String × String)} {s : List Char} (h : QuerySpelling pairs s) :
    QuerySpelling pairs ('&' :: s)
  | last {pair : String × String} {piece : List Char} (h : PairSpelling pair piece) :
    QuerySpelling [pair] piece
  | cons {pair : String × String} {pairs : List (String × String)} {piece s : List Char}
    (h : PairSpelling pair piece) (hrest : QuerySpelling pairs s) :
    QuerySpelling (pair :: pairs) (piece ++ '&' :: s)

theorem ne_nil_of_spelling {text s : List Char} (h : TextSpelling text s) (hne : text ≠ []) :
    s ≠ [] := by
  rintro rfl
  have hempty : String.ofList text = String.ofList [] := (decodeText_of_spelling h).symm
  exact hne (String.ofList_injective hempty)

theorem readPair_of_name {name n : List Char} (hname : TextSpelling name n) (hn : '=' ∉ n) :
    readPair n = (String.ofList name, "") := by
  have hbefore : ∀ c ∈ n, (c != '=') = true := fun c hc => bne_iff_ne.2 fun he => hn (he ▸ hc)
  rw [readPair, List.takeWhile_eq_self_iff.2 hbefore, List.dropWhile_eq_nil_iff.2 hbefore,
    decodeText_of_spelling hname]
  rfl

namespace PairSpelling

variable {pair : String × String} {piece : List Char}

theorem read (h : PairSpelling pair piece) : readPair piece = pair := by
  cases h with
  | full hname hn hvalue =>
    rw [readPair_of_spelling hname hvalue hn, String.ofList_toList, String.ofList_toList]
  | short hname hn _ => rw [readPair_of_name hname hn, String.ofList_toList]

theorem ne_nil (h : PairSpelling pair piece) : piece ≠ [] := by
  cases h with
  | full => simp
  | short hname _ hne => exact ne_nil_of_spelling hname (by simpa using hne)

theorem ne_and (h : PairSpelling pair piece) : ∀ c ∈ piece, c ≠ '&' := by
  cases h with
  | full hname _ hvalue => exact ne_and_of_spellings hname hvalue
  | short hname => exact ne_and_of_spelling hname

end PairSpelling

theorem splitOn_append_and {piece : List Char} (hand : ∀ c ∈ piece, c ≠ '&') (s : List Char) :
    (piece ++ '&' :: s).splitOn '&' = piece :: s.splitOn '&' :=
  List.splitOnP_append_cons_of_forall_mem (fun c hc => beq_eq_false_iff_ne.2 (hand c hc)) '&' rfl s

@[simp] theorem readPairs_and (s : List Char) : readPairs ('&' :: s) = readPairs s := by
  have hsplit : ('&' :: s).splitOn '&' = [] :: s.splitOn '&' :=
    splitOn_append_and (List.forall_mem_nil _) s
  rw [readPairs, hsplit]
  rfl

theorem readPairs_append_and {piece : List Char} (hand : ∀ c ∈ piece, c ≠ '&') (hne : piece ≠ [])
    (s : List Char) : readPairs (piece ++ '&' :: s) = readPair piece :: readPairs s := by
  rw [readPairs, splitOn_append_and hand]
  simp [readPairs, hne]

theorem readPairs_of_query {pairs : List (String × String)} {s : List Char}
    (h : QuerySpelling pairs s) : readPairs s = pairs := by
  induction h with
  | empty => rfl
  | separator _ ih => rw [readPairs_and, ih]
  | last h => rw [readPairs_of_piece h.ne_and h.ne_nil, h.read]
  | cons h _ ih => rw [readPairs_append_and h.ne_and h.ne_nil, h.read, ih]

end Form

/-- Of the entries of a name the last one has this value. -/
def LastNamed {α : Type} (entries : List (String × α)) (name : String) (a : α) : Prop :=
  ∃ before after, entries = before ++ (name, a) :: after ∧ ∀ entry ∈ after, name ≠ entry.1

namespace Table

variable {α : Type}

theorem get?_eq_some_iff {t : Table α} {name : String} {a : α} :
    t.get? name = some a ↔ LastNamed t.entries name a := by
  simp only [get?, List.lookup_eq_some_iff, bne_iff_ne, LastNamed]
  constructor
  · rintro ⟨after, before, he, hafter⟩
    refine ⟨before.reverse, after.reverse, ?_, fun entry h => hafter entry (List.mem_reverse.1 h)⟩
    rw [← List.reverse_reverse t.entries, he]
    simp
  · rintro ⟨before, after, he, hafter⟩
    refine ⟨after.reverse, before.reverse, ?_, fun entry h => hafter entry (List.mem_reverse.1 h)⟩
    rw [he]
    simp

theorem get?_eq_none_iff {t : Table α} {name : String} :
    t.get? name = none ↔ name ∉ t.entries.map Prod.fst := by
  simp only [get?, List.lookup_eq_none_iff, List.mem_reverse, bne_iff_ne, List.mem_map, not_exists,
    not_and]
  exact forall₂_congr fun entry _ => ne_comm

end Table

/-- However the pairs are spelled and wherever separators stand, what is read is the table into
which the pairs are put one after the other. -/
theorem spelled_pairs_are_read_back (pairs : List (String × String)) (query : List Char)
    (h : Form.QuerySpelling pairs query) :
    let params := Parameters.ofQueryString (String.ofList query)
    params = pairs.foldl (fun table pair => table.insert pair.1 pair.2) {} ∧
      (∀ name text, params.get? name = some text ↔ LastNamed pairs name text) ∧
      ∀ name, params.get? name = none ↔ name ∉ pairs.map Prod.fst := by
  intro params
  have hentries : params.entries = pairs := by
    have hread := Form.readPairs_of_query h
    rwa [← String.toList_ofList (l := query)] at hread
  have htable : params = { entries := pairs } := congrArg Table.mk hentries
  have hcollected : (pairs.foldl (fun table pair => table.insert pair.1 pair.2)
      ({} : Parameters)).entries = pairs := by
    rw [Table.entries_foldl_insert, List.nil_append]
  refine ⟨htable.trans (congrArg Table.mk hcollected).symm, fun name text => ?_, fun name => ?_⟩
  · rw [Table.get?_eq_some_iff, hentries]
  · rw [Table.get?_eq_none_iff, hentries]

theorem spelled_pairs_are_read_back_repeated :
    let pairs := [("a=", "x y"), ("é", ""), ("a=", "")]
    let query := "&a%3D=x+y&&%C3%a9&a%3d=".toList
    let params := Parameters.ofQueryString (String.ofList query)
    Form.QuerySpelling pairs query ∧
      params = pairs.foldl (fun table pair => table.insert pair.1 pair.2) {} ∧
      params.get? "a=" = some "" ∧ params.get? "é" = some "" ∧ params.get? "a" = none := by
  intro pairs query params
  have hupper : Form.ByteSpelling 0x3D ['%', '3', 'D'] := .percent (by decide) (by decide)
  have hlower : Form.ByteSpelling 0x3D ['%', '3', 'd'] := .percent (by decide) (by decide)
  have hlead : Form.ByteSpelling 0xC3 ['%', 'C', '3'] := .percent (by decide) (by decide)
  have htrail : Form.ByteSpelling 0xA9 ['%', 'a', '9'] := .percent (by decide) (by decide)
  have hequals : Form.CharSpelling '=' ['%', '3', 'D'] := .bytes (.cons hupper .nil)
  have hequals' : Form.CharSpelling '=' ['%', '3', 'd'] := .bytes (.cons hlower .nil)
  have haccent : Form.CharSpelling 'é' ['%', 'C', '3', '%', 'a', '9'] :=
    .bytes (.cons hlead (.cons htrail .nil))
  have ha : Form.CharSpelling 'a' ['a'] := .kept (by decide) (by decide) (by decide)
  have hx : Form.CharSpelling 'x' ['x'] := .kept (by decide) (by decide) (by decide)
  have hy : Form.CharSpelling 'y' ['y'] := .kept (by decide) (by decide) (by decide)
  have hname : Form.TextSpelling "a=".toList "a%3D".toList := .cons ha (.cons hequals .nil)
  have hagain : Form.TextSpelling "a=".toList "a%3d".toList := .cons ha (.cons hequals' .nil)
  have hspace : Form.TextSpelling "x y".toList "x+y".toList :=
    .cons hx (.cons Form.CharSpelling.plus (.cons hy .nil))
  have hshort : Form.TextSpelling "é".toList "%C3%a9".toList := .cons haccent .nil
  have hnothing : Form.TextSpelling "".toList [] := .nil
  have hquery : Form.QuerySpelling pairs query :=
    .separator (.cons (.full hname (by decide) hspace)
      (.separator (.cons (.short hshort (by decide) (by decide))
        (.last (.full hagain (by decide) hnothing)))))
  obtain ⟨htable, hlast, hnone⟩ := spelled_pairs_are_read_back pairs query hquery
  exact ⟨hquery, htable, (hlast "a=" "").2 ⟨[("a=", "x y"), ("é", "")], [], rfl, nofun⟩,
    (hlast "é" "").2 ⟨[("a=", "x y")], [("a=", "")], rfl, by decide⟩, (hnone "a").2 (by decide)⟩

end Listing
