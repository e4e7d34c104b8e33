import Listing.Envelope
import Listing.Proofs.DocumentValues
import Mathlib.Data.List.Forall2

set_option autoImplicit false

namespace Listing

open Numeric

namespace Json

theorem isHexDigit_hexDigit (n : Nat) : IsHexDigit (hexDigit n) (n % 0x10) :=
  ⟨Nat.mod_lt _ (by decide), .inl rfl⟩

theorem unitSpelling_control {n : Nat} (h : n < 0x20) :
    UnitSpelling n ['\\', 'u', '0', '0', hexDigit (n / 16), hexDigit n] := by
  have hzero : IsHexDigit '0' 0 := by decide
  have hthird : n / 0x1000 = 0 := by omega
  have hsecond : n / 0x100 % 0x10 = 0 := by omega
  exact .digits (by rwa [hthird]) (by rwa [hsecond]) (isHexDigit_hexDigit _) (isHexDigit_hexDigit n)

theorem CharSpelling.of_beq {c d letter : Char} (h : (c == d) = true)
    (hletter : (letter, d) ∈ shortEscapes) : CharSpelling c ['\\', letter] :=
  .short (eq_of_beq h ▸ hletter)

theorem charSpelling_escapeChar (c : Char) : CharSpelling c (escapeChar c) := by
  unfold escapeChar
  -- seven characters have a letter of their own
  iterate 7
    split
    · exact .of_beq ‹_› (by decide)
  split
  · exact .unit (unitSpelling_control ‹_›)
  · rename_i hquote hback _ _ _ _ _ hcontrol
    exact .plain (Nat.not_lt.1 hcontrol) (mt beq_of_eq hquote) (mt beq_of_eq hback)

mutual

/-- No number in a value is real, and integers are within 64 bits with or without sign. -/
def Value.Exact : Value → Prop
  | .integer i => -0x8000000000000000 ≤ i ∧ i < 0x10000000000000000
  | .real _ => False
  | .array items => Value.ExactItems items
  | .object members => Value.ExactMembers members
  | _ => True

def Value.ExactItems : List Value → Prop
  | [] => True
  | v :: rest => v.Exact ∧ Value.ExactItems rest

def Value.ExactMembers : List (String × Value) → Prop
  | [] => True
  | (_, v) :: rest => v.Exact ∧ Value.ExactMembers rest

end

@[simp] theorem exactItems_iff (items : List Value) :
    Value.ExactItems items ↔ ∀ v ∈ items, v.Exact := by
  induction items with
  | nil => simp [Value.ExactItems]
  | cons v items ih => simp [Value.ExactItems, ih]

@[simp] theorem separated_singleton (item : List Char) : separated [item] = item :=
  List.append_nil item

@[simp] theorem separated_cons_cons (item next : List Char) (items : List (List Char)) :
    separated (item :: next :: items) = item ++ ([','] ++ separated (next :: items)) :=
  rfl

theorem spelling_escaped (text : List Char) : TextSpelling text (text.flatMap escapeChar) :=
  .flatMap fun c _ => charSpelling_escapeChar c

theorem writtenMember_write {name : String} {v : Value} (h : Written v v.write) :
    WrittenMember (name, v) (writeString name ++ ':' :: v.write) := by
  have hmember := WrittenMember.named (spelling_escaped name.toList) (.bare ':') h
  simpa [writeString] using hmember

-- By induction on the value; a list of one is written without a separator.
mutual

theorem Value.written_write : ∀ v : Value, v.Exact → Written v v.write
  | .null, _ => .null
  | .bool b, _ => .bool b
  | .integer _, h => .integer h.1 h.2
  | .real _, h => False.elim h
  | .string s, _ => .string (spelling_escaped s.toList)
  | .array items, h => .array (.bare '[') (writtenItems_write items h) (.bare ']')
  | .object members, h =>
    .object (.bare '\x7b') (writtenMembers_write members h) (.bare '\x7d')

theorem writtenItems_write : ∀ items : List Value, Value.ExactItems items →
    WrittenItems items (separated (writeItems items))
  | [], _ => .nil
  | [v], h => by
    rw [writeItems, writeItems, separated_singleton]
    exact .last (Value.written_write v h.1)
  | v :: next :: items, h => by
    rw [writeItems, writeItems, separated_cons_cons]
    exact .cons (Value.written_write v h.1) (.bare ',') (writtenItems_write (next :: items) h.2)

theorem writtenMembers_write : ∀ members : List (String × Value), Value.ExactMembers members →
    WrittenMembers members (separated (writeMembers members))
  | [], _ => .nil
  | [(_, v)], h => by
    rw [writeMembers, writeMembers, separated_singleton]
    exact .last (writtenMember_write (Value.written_write v h.1))
  | (_, v) :: next :: members, h => by
    rw [writeMembers, writeMembers, separated_cons_cons]
    exact .cons (writtenMember_write (Value.written_write v h.1)) (.bare ',')
      (writtenMembers_write (next :: members) h.2)

end

/-- What is written is one document, and it is read as the value that was written. -/
theorem Value.ofText_write {v : Value} (hexact : v.Exact) (hdepth : v.depth ≤ greatestDepth)
    (hsettled : v.isSettled = true) :
    Document v v.write ∧ Value.ofText? v.write = some v.sorted :=
  have hdocument := Document.bare (v.written_write hexact)
  ⟨hdocument, Value.ofText_of_document hdocument hdepth hsettled⟩

/-- An object of these members and no others, in whatever order. -/
def Value.HasMembers (v : Value) (members : List (String × Value)) : Prop :=
  ∃ found, v = .object found ∧ found.Perm members

theorem insertMember_perm {name : String} {v : Value} {ms : List (String × Value)}
    (h : name ∉ ms.map Prod.fst) : (insertMember name v ms).Perm ((name, v) :: ms) := by
  induction ms with
  | nil => exact .refl _
  | cons m ms ih =>
    obtain ⟨hm, hms⟩ := not_or.1 (mt List.mem_cons.2 h)
    unfold insertMember
    split
    · exact .refl _
    · exact ((ih hms).cons m).trans (.swap _ _ _)

theorem foldr_insertMember_perm {ms : List (String × Value)} (h : (ms.map Prod.fst).Nodup) :
    (ms.foldr (fun m sorted => insertMember m.1 m.2 sorted) []).Perm ms := by
  induction ms with
  | nil => exact .refl _
  | cons m ms ih =>
    obtain ⟨hm, hms⟩ := List.nodup_cons.1 h
    have hperm := ih hms
    refine (insertMember_perm fun hmem => hm ?_).trans (hperm.cons m)
    exact (hperm.map Prod.fst).mem_iff.1 hmem

theorem sortMembers_perm {ms : List (String × Value)} (h : (ms.map Prod.fst).Nodup) :
    (sortMembers ms).Perm ms := by
  have hfold : sortMembers ms = ms.reverse.foldr (fun m sorted => insertMember m.1 m.2 sorted) [] :=
    List.foldl_eq_foldr_reverse
  have hreverse := ms.reverse_perm
  rw [hfold]
  exact (foldr_insertMember_perm ((hreverse.map Prod.fst).nodup_iff.2 h)).trans hreverse

@[simp] theorem map_fst_sortedMembers (ms : List (String × Value)) :
    (Value.sortedMembers ms).map Prod.fst = ms.map Prod.fst := by
  induction ms with
  | nil => rfl
  | cons m ms ih => rw [Value.sortedMembers, List.map_cons, List.map_cons, ih]

theorem Value.hasMembers_sorted {ms sorted : List (String × Value)} (h : (ms.map Prod.fst).Nodup)
    (hsorted : Value.sortedMembers ms = sorted) : (Value.object ms).sorted.HasMembers sorted := by
  subst hsorted
  exact ⟨_, rfl, sortMembers_perm (by rwa [map_fst_sortedMembers])⟩

theorem eq_of_perm {ms ms' : List (String × Value)} (hperm : ms.Perm ms')
    (hnames : ms.map Prod.fst = ms'.map Prod.fst) (h : (ms.map Prod.fst).Nodup) : ms = ms' := by
  induction ms generalizing ms' with
  | nil => exact hperm.nil_eq
  | cons m ms ih =>
    cases ms' with
    | nil => exact nomatch hnames
    | cons m' ms' =>
      obtain ⟨-, hlater⟩ := List.cons.inj hnames
      obtain ⟨hm, hms⟩ := List.nodup_cons.1 h
      -- a second member of the name is not among the later ones
      have hmem : m = m' ∨ m ∈ ms' := List.mem_cons.1 (hperm.mem_iff.1 List.mem_cons_self)
      have hsame : m = m' := by
        refine hmem.resolve_right fun hlate => hm ?_
        rw [hlater]
        exact List.mem_map_of_mem hlate
      subst hsame
      rw [ih hperm.cons_inv hlater hms]

theorem Value.HasMembers.unique {v : Value} {ms ms' : List (String × Value)}
    (h : v.HasMembers ms) (h' : v.HasMembers ms') (hnames : ms.map Prod.fst = ms'.map Prod.fst)
    (hnodup : (ms.map Prod.fst).Nodup) : ms = ms' := by
  obtain ⟨found, rfl, hperm⟩ := h
  obtain ⟨others, hothers, hperm'⟩ := h'
  obtain rfl := Value.object.inj hothers
  exact eq_of_perm (hperm.symm.trans hperm') hnames hnodup

end Json

open Json (Value)

def Row.IsItem (row : Row) (item : Value) : Prop :=
  item.HasMembers
    [("id", .integer row.id.toInt), ("name", .string row.name),
      ("note", match row.note with
        | none => .null
        | some note => .string note)]

def PageSummary.IsMeta (s : PageSummary) (v : Value) : Prop :=
  v.HasMembers
    [("page", .integer s.page.toNat), ("pageSize", .integer s.size.toNat),
      ("total", .integer s.total.toNat), ("totalPages", .integer s.totalPages.toNat),
      ("hasNextPage", .bool s.hasNext)]

namespace Row

theorem isItem_sorted (row : Row) : row.IsItem row.json.sorted := by
  unfold IsItem json
  refine Value.hasMembers_sorted (by simp) ?_
  cases row.note <;> simp [Value.sortedMembers, Value.sorted]

theorem eq_of_isItem {row row' : Row} {item : Value} (h : row.IsItem item)
    (h' : row'.IsItem item) : row = row' := by
  have hmembers := h.unique h' (by simp) (by simp)
  simp only [List.cons.injEq, Prod.mk.injEq, Value.integer.injEq, Value.string.injEq, true_and,
    and_true, Int64.toInt_inj] at hmembers
  obtain ⟨id, name, note⟩ := row
  obtain ⟨id', name', note'⟩ := row'
  obtain ⟨hid, hname, hnote⟩ := hmembers
  cases note <;> cases note' <;> simp_all

theorem exact_json (row : Row) : row.json.Exact := by
  have hlow := row.id.le_toInt
  have hhigh := row.id.toInt_lt
  refine ⟨⟨hlow, by omega⟩, trivial, ?_, trivial⟩
  cases row.note <;> trivial

@[simp] theorem depth_json (row : Row) : row.json.depth = 1 := by
  unfold json
  cases row.note <;> rfl

@[simp] theorem isSettled_json (row : Row) : row.json.isSettled = true := by
  unfold json
  cases row.note <;> simp [Value.isSettled, Value.membersSettled, Json.embeddingName]

end Row

namespace PageSummary

theorem isMeta_sorted (s : PageSummary) : s.IsMeta s.json.sorted :=
  Value.hasMembers_sorted (by simp) rfl

theorem exact_countJson (n : UInt64) : (countJson n).Exact := by
  have hbound := n.toNat_lt
  exact ⟨by omega, by omega⟩

theorem exact_json (s : PageSummary) : s.json.Exact :=
  ⟨exact_countJson _, exact_countJson _, exact_countJson _, exact_countJson _, trivial, trivial⟩

theorem eq_of_isMeta {s s' : PageSummary} {v : Value} (h : s.IsMeta v) (h' : s'.IsMeta v) :
    s = s' := by
  have hmembers := h.unique h' (by simp) (by simp)
  simp only [List.cons.injEq, Prod.mk.injEq, Value.integer.injEq, Value.bool.injEq, true_and,
    and_true, Int.ofNat_inj, UInt64.toNat_inj] at hmembers
  obtain ⟨hpage, hsize, htotal, hpages, hnext⟩ := hmembers
  cases s
  cases s'
  simp_all

@[simp] theorem isSettled_json (s : PageSummary) : s.json.isSettled = true := by
  simp [json, countJson, Value.isSettled, Value.membersSettled, Json.embeddingName]

end PageSummary

/-- An answer has the rows in their order, the summary, and that it is a success. -/
def IsAnswer (rows : List Row) (summary : PageSummary) (v : Value) : Prop :=
  ∃ items found,
    v.HasMembers [("success", .bool true), ("data", .array items), ("meta", found)] ∧
      List.Forall₂ Row.IsItem rows items ∧ summary.IsMeta found

@[simp] theorem Json.sortedItems_eq (items : List Value) :
    Value.sortedItems items = items.map Value.sorted := by
  induction items with
  | nil => rfl
  | cons v items ih => rw [Value.sortedItems, List.map_cons, ih]

section Envelope

variable (rows : List Row) (summary : PageSummary)

theorem exact_envelope : (envelope (rows.map Row.json) summary).Exact :=
  ⟨trivial, (Json.exactItems_iff _).2 (List.forall_mem_map.2 fun row _ => row.exact_json),
    summary.exact_json, trivial⟩

theorem depth_envelope :
    (envelope (rows.map Row.json) summary).depth ≤ Json.greatestDepth := by
  have hitems : Value.itemsDepth (rows.map Row.json) ≤ 1 :=
    (Json.itemsDepth_le_iff _ 1).2 (List.forall_mem_map.2 fun row _ => row.depth_json.le)
  have hsummary : summary.json.depth = 1 := rfl
  simp only [envelope, Value.depth, Value.membersDepth, hsummary, Json.greatestDepth]
  omega

@[simp] theorem isSettled_envelope : (envelope (rows.map Row.json) summary).isSettled = true := by
  have hitems : Value.areSettled (rows.map Row.json) = true :=
    (Json.areSettled_iff _).2 (List.forall_mem_map.2 fun row _ => row.isSettled_json)
  simp [envelope, Value.isSettled, Value.membersSettled, Json.embeddingName, hitems]

theorem ofText_envelope :
    Json.Document (envelope (rows.map Row.json) summary)
        (envelope (rows.map Row.json) summary).text.toList ∧
      Value.ofText? (envelope (rows.map Row.json) summary).text.toList =
        some (envelope (rows.map Row.json) summary).sorted := by
  rw [Value.text, String.toList_ofList]
  exact Value.ofText_write (exact_envelope rows summary) (depth_envelope rows summary)
    (isSettled_envelope rows summary)

theorem isAnswer_sorted :
    IsAnswer rows summary (envelope (rows.map Row.json) summary).sorted := by
  refine ⟨(rows.map Row.json).map Value.sorted, summary.json.sorted, ?_, ?_, summary.isMeta_sorted⟩
  · refine Value.hasMembers_sorted (by simp) ?_
    simp [Value.sortedMembers, Value.sorted]
  · rw [List.map_map]
    exact List.forall₂_map_right_iff.2 (List.forall₂_same.2 fun row _ => row.isItem_sorted)

variable {rows summary}

theorem eq_of_isAnswer {rows' : List Row} {summary' : PageSummary} {v : Value}
    (h : IsAnswer rows summary v) (h' : IsAnswer rows' summary' v) :
    rows = rows' ∧ summary = summary' := by
  obtain ⟨items, found, hmembers, hitems, hfound⟩ := h
  obtain ⟨items', found', hmembers', hitems', hfound'⟩ := h'
  have hsame := hmembers.unique hmembers' (by simp) (by simp)
  simp only [List.cons.injEq, Prod.mk.injEq, Value.array.injEq, true_and, and_true] at hsame
  obtain ⟨rfl, rfl⟩ := hsame
  have hunique : Relator.LeftUnique Row.IsItem := fun _ _ _ => Row.eq_of_isItem
  exact ⟨List.left_unique_forall₂' hunique hitems hitems', PageSummary.eq_of_isMeta hfound hfound'⟩

end Envelope

/-- The body of every answer is one document, of which the rows and the summary are read again, so
that two answers are the same text only if they are the same. -/
theorem answers_are_read_back :
    (∀ (rows : List Row) (w : Window) (total : UInt64),
      let summary := PageSummary.of w total
      let answer := envelope (rows.map Row.json) summary
      let body := answer.text.toList
      Json.Document answer body ∧
        ∃ v, Value.ofText? body = some v ∧ IsAnswer rows summary v) ∧
    ∀ (rows rows' : List Row) (w w' : Window) (total total' : UInt64),
      (envelope (rows.map Row.json) (.of w total)).text =
          (envelope (rows'.map Row.json) (.of w' total')).text ↔
        rows = rows' ∧ PageSummary.of w total = PageSummary.of w' total' := by
  refine ⟨fun rows w total => ?_, fun rows rows' w w' total total' => ⟨fun htext => ?_, ?_⟩⟩
  · obtain ⟨hdocument, hread⟩ := ofText_envelope rows (.of w total)
    exact ⟨hdocument, _, hread, isAnswer_sorted rows _⟩
  · have hread := (ofText_envelope rows (.of w total)).2
    rw [htext, (ofText_envelope rows' (.of w' total')).2, Option.some.injEq] at hread
    have hanswer := isAnswer_sorted rows (.of w total)
    rw [← hread] at hanswer
    exact eq_of_isAnswer hanswer (isAnswer_sorted rows' _)
  · rintro ⟨rfl, hsummary⟩
    rw [hsummary]

example :
    (envelope [Row.json ⟨-5, "\"\\\n\x1f\u00e9", none⟩] (.of { page := 2, size := 0 } 1)).text =
      "\x7b\"success\":true,\"data\":[\x7b\"id\":-5,\"name\":\"\\\"\\\\\\n\\u001f\u00e9\"," ++
        "\"note\":null\x7d],\"meta\":\x7b\"page\":2,\"pageSize\":1,\"total\":1," ++
        "\"totalPages\":1,\"hasNextPage\":false\x7d\x7d" := by
  decide +kernel

end Listing
