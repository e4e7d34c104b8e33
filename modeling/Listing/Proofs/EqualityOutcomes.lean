import Listing.Equality
import Listing.Proofs.Decimals
import Mathlib.Data.List.Forall2

set_option autoImplicit false

namespace Listing

open Sql Numeric

namespace Numeric

theorem readInt64?_eq_some_iff {s : List Char} {i : Int64} :
    readInt64? s = some i ↔
      ∃ (sign : Option Sign) (digits : List Char), s = signChars sign ++ digits ∧ digits ≠ [] ∧
        (∀ c ∈ digits, c.isDigit = true) ∧ i.toInt = signFactor sign * digitsValue digits := by
  have hread (sign : Option Sign) (digits : List Char) (h : splitSign s = (sign, digits)) :
      readInt64? s = (natural? digits).bind fun n : Nat => int64OfInt? (signFactor sign * n) := by
    simp only [readInt64?, h, signFactor_mul]
  constructor
  · intro h
    rw [hread _ _ rfl] at h
    obtain ⟨n, hn, hi⟩ := Option.bind_eq_some_iff.1 h
    obtain ⟨hne, hdigits, rfl⟩ := natural?_eq_some_iff.1 hn
    exact ⟨_, _, (append_splitSign s).symm, hne, hdigits, int64OfInt?_eq_some_iff.1 hi⟩
  · rintro ⟨sign, digits, rfl, hne, hdigits, hi⟩
    have hhead : ∀ c ∈ digits.head?, c ≠ '+' ∧ c ≠ '-' := fun c hc =>
      not_sign_of_isDigit (hdigits c (List.mem_of_mem_head? hc))
    rw [hread _ _ (splitSign_append sign hhead), natural?_eq_some_iff.2 ⟨hne, hdigits, rfl⟩,
      Option.bind_some, int64OfInt?_eq_some_iff.2 hi]

end Numeric

/-- The texts of a kind, each with the value that is bound for it. Of decimals those are of a kind
that are not rounded to infinity. -/
inductive Sql.Kind.Reads : Kind → List Char → Value → Prop
  | text (s : List Char) : Reads .text s (.text (String.ofList s))
  | integer {sign : Option Sign} {digits : List Char} {i : Int64} (hne : digits ≠ [])
    (hdigits : ∀ c ∈ digits, c.isDigit = true)
    (hvalue : i.toInt = signFactor sign * digitsValue digits) :
    Reads .integer (signChars sign ++ digits) (.integer i)
  | real {d : Decimal} (h : d.magnitude < 2 ^ 1024 - 2 ^ 970) :
    Reads .real d.chars (.real d.literal.toBinary64)

namespace Sql.Kind

theorem read?_of_reads {kind : Kind} {raw : String} {value : Value}
    (h : kind.Reads raw.toList value) : kind.read? raw = some value := by
  obtain ⟨s, hs⟩ : ∃ s, raw.toList = s := ⟨_, rfl⟩
  rw [hs] at h
  cases h with
  | text => rw [← hs, String.ofList_toList, read?]
  | integer hne hdigits hvalue =>
    rw [read?, readInt64?_eq_some_iff.2 ⟨_, _, hs, hne, hdigits, hvalue⟩, Option.map_some]
  | real hsmall =>
    have hfinite := (Decimal.isFinite_iff _).2 hsmall
    rw [read?, hs, Binary64.read_decimal, Option.bind_some, if_pos hfinite]

theorem reads_of_read? {kind : Kind} {raw : String} {value : Value}
    (h : kind.read? raw = some value) : kind.Reads raw.toList value := by
  cases kind with
  | text =>
    rw [← Option.some.inj h]
    have htext := Reads.text raw.toList
    rwa [String.ofList_toList] at htext
  | integer =>
    obtain ⟨i, hi, rfl⟩ := Option.map_eq_some_iff.1 h
    obtain ⟨sign, digits, hs, hne, hdigits, hvalue⟩ := readInt64?_eq_some_iff.1 hi
    rw [hs]
    exact .integer hne hdigits hvalue
  | real =>
    obtain ⟨x, hx, hvalue⟩ := Option.bind_eq_some_iff.1 h
    split at hvalue
    · rename_i hfinite
      obtain ⟨d, hd, rfl⟩ := Binary64.exists_decimal_of_read hx hfinite
      rw [← Option.some.inj hvalue, ← hd]
      exact .real (d.isFinite_iff.1 hfinite)
    · exact nomatch hvalue

theorem read?_ofList_eq_some_iff {kind : Kind} {s : List Char} {value : Value} :
    kind.read? (String.ofList s) = some value ↔ kind.Reads s value := by
  have hiff : kind.read? (String.ofList s) = some value ↔
      kind.Reads (String.ofList s).toList value := ⟨reads_of_read?, read?_of_reads⟩
  rwa [String.toList_ofList] at hiff

end Sql.Kind

/-- The same entries, in whatever order and however often. -/
def Table.SameEntries {α : Type} (t u : Table α) : Prop :=
  (∀ entry ∈ t.entries, entry ∈ u.entries) ∧ ∀ entry ∈ u.entries, entry ∈ t.entries

instance {α : Type} [DecidableEq α] (t u : Table α) : Decidable (t.SameEntries u) :=
  inferInstanceAs (Decidable (_ ∧ _))

theorem Table.exists_get?_of_mem {α : Type} {t : Table α} {name : String} {a : α}
    (h : (name, a) ∈ t.entries) : ∃ b, t.get? name = some b := by
  cases hget : t.get? name with
  | some b => exact ⟨b, rfl⟩
  | none =>
    have hother := List.lookup_eq_none_iff.1 hget (name, a) (List.mem_reverse.2 h)
    exact absurd rfl (bne_iff_ne.1 hother)

namespace Parameters

theorem mem_entries_pick {params : Parameters} {names : List String} {name text : String} :
    (name, text) ∈ (params.pick names).entries ↔
      name ∈ names ∧ params.stripped? name = some text := by
  simp only [pick, List.mem_filterMap, Option.map_eq_some_iff, Prod.mk.injEq]
  constructor
  · rintro ⟨_, hname, _, htext, rfl, rfl⟩
    exact ⟨hname, htext⟩
  · rintro ⟨hname, htext⟩
    exact ⟨name, hname, text, htext, rfl, rfl⟩

/-- Each name has one text among the parameters picked, so that their order cannot matter. -/
theorem get?_of_sameEntries {params found : Parameters} {names : List String}
    (h : found.SameEntries (params.pick names)) {name : String} (hname : name ∈ names) :
    found.get? name = params.stripped? name := by
  have hone {text : String} (hfound : found.get? name = some text) :
      params.stripped? name = some text :=
    (mem_entries_pick.1 (h.1 _ (Table.mem_entries_of_get? hfound))).2
  cases hstripped : params.stripped? name with
  | some text =>
    obtain ⟨other, hother⟩ := Table.exists_get?_of_mem
      (h.2 _ (mem_entries_pick.2 ⟨hname, hstripped⟩))
    rw [hother, ← hone hother, hstripped]
  | none =>
    cases hfound : found.get? name with
    | some text => exact nomatch hstripped.symm.trans (hone hfound)
    | none => rfl

theorem stripped?_of_isCore {params : Parameters} {name raw : String} {core : List Char}
    (h : params.get? name = some raw) (hcore : Text.IsCore raw.toList core) (hne : core ≠ []) :
    params.stripped? name = some (String.ofList core) := by
  rw [stripped?, h, Option.bind_some, Text.strip, Text.stripChars_eq_iff.2 hcore]
  simp [hne]

theorem stripped?_of_blank {params : Parameters} {name raw : String}
    (h : params.get? name = some raw) (hblank : ∀ c ∈ raw.toList, Text.isBlank c = true) :
    params.stripped? name = none := by
  have hcore : Text.IsCore raw.toList [] :=
    ⟨⟨raw.toList, [], hblank, nofun, by rw [List.append_nil, List.append_nil]⟩, nofun, nofun⟩
  rw [stripped?, h, Option.bind_some, Text.strip, Text.stripChars_eq_iff.2 hcore]
  rfl

theorem isCore_of_stripped? {params : Parameters} {name text : String}
    (h : params.stripped? name = some text) :
    ∃ raw, params.get? name = some raw ∧ Text.IsCore raw.toList text.toList := by
  obtain ⟨raw, hraw, htext⟩ := Option.bind_eq_some_iff.1 h
  dsimp only at htext
  split at htext
  · exact nomatch htext
  · rw [← Option.some.inj htext, Text.toList_strip]
    exact ⟨raw, hraw, Text.isCore_stripChars _⟩

theorem blank_of_stripped?_eq_none {params : Parameters} {name raw : String}
    (h : params.stripped? name = none) (hraw : params.get? name = some raw) :
    ∀ c ∈ raw.toList, Text.isBlank c = true := by
  have hcore := Text.isCore_stripChars raw.toList
  by_cases hne : Text.stripChars raw.toList = []
  · obtain ⟨⟨before, after, hbefore, hafter, heq⟩, -⟩ := hcore
    rw [heq, hne, List.append_nil]
    exact List.forall_mem_append.2 ⟨hbefore, hafter⟩
  · rw [stripped?_of_isCore hraw hcore hne] at h
    exact nomatch h

end Parameters

namespace EqualityRule

inductive Outcome
  | skipped
  | bound (column : String) (value : Value)
  | dropped (key : String) (kind : Kind)
  deriving DecidableEq

namespace Outcome

def text? : Outcome → Option String
  | bound column _ => some (column ++ " = ?")
  | _ => none

def value? : Outcome → Option Value
  | bound _ value => some value
  | _ => none

def clause? : Outcome → Option Clause
  | bound column value => some { text := column ++ " = ?", values := [value] }
  | _ => none

def notice? : Outcome → Option Notice
  | dropped key kind => some (.equalityUnreadable key kind)
  | _ => none

end Outcome

/-- What a request has for a rule. Blanks around a text are not part of it. -/
inductive Meets (params : Parameters) (rule : EqualityRule) : Outcome → Prop
  | absent (h : params.get? rule.key = none) : Meets params rule .skipped
  | blank {raw : String} (h : params.get? rule.key = some raw)
    (hblank : ∀ c ∈ raw.toList, Text.isBlank c = true) : Meets params rule .skipped
  | bound {raw : String} {core : List Char} {value : Value} (h : params.get? rule.key = some raw)
    (hcore : Text.IsCore raw.toList core) (hne : core ≠ []) (hvalue : rule.kind.Reads core value) :
    Meets params rule (.bound rule.column value)
  | dropped {raw : String} {core : List Char} (h : params.get? rule.key = some raw)
    (hcore : Text.IsCore raw.toList core) (hne : core ≠ [])
    (hnone : ∀ value, ¬ rule.kind.Reads core value) :
    Meets params rule (.dropped rule.key rule.kind)

def outcome (params : Parameters) (rule : EqualityRule) : Outcome :=
  match params.stripped? rule.key with
  | none => .skipped
  | some text =>
    match rule.kind.read? text with
    | none => .dropped rule.key rule.kind
    | some value => .bound rule.column value

theorem outcome_of_meets {params : Parameters} {rule : EqualityRule} {o : Outcome}
    (h : rule.Meets params o) : rule.outcome params = o := by
  unfold outcome
  cases h with
  | absent h => rw [Parameters.stripped?, h, Option.bind_none]
  | blank h hblank => rw [Parameters.stripped?_of_blank h hblank]
  | @bound raw core value h hcore hne hvalue =>
    simp only [Parameters.stripped?_of_isCore h hcore hne, Kind.read?_ofList_eq_some_iff.2 hvalue]
  | @dropped raw core h hcore hne hnone =>
    have hread : rule.kind.read? (String.ofList core) = none :=
      Option.eq_none_iff_forall_ne_some.2 fun value hvalue =>
        hnone value (Kind.read?_ofList_eq_some_iff.1 hvalue)
    simp only [Parameters.stripped?_of_isCore h hcore hne, hread]

theorem meets_outcome (params : Parameters) (rule : EqualityRule) :
    rule.Meets params (rule.outcome params) := by
  unfold outcome
  cases hstripped : params.stripped? rule.key with
  | none =>
    cases hget : params.get? rule.key with
    | none => exact .absent hget
    | some raw => exact .blank hget (Parameters.blank_of_stripped?_eq_none hstripped hget)
  | some text =>
    obtain ⟨raw, hget, hcore⟩ := Parameters.isCore_of_stripped? hstripped
    have hne := Parameters.toList_ne_nil_of_stripped? hstripped
    dsimp only
    cases hread : rule.kind.read? text with
    | some value => exact .bound hget hcore hne (Kind.reads_of_read? hread)
    | none =>
      refine .dropped hget hcore hne fun value hvalue => ?_
      exact nomatch hread.symm.trans (Kind.read?_of_reads hvalue)

theorem meets_iff {params : Parameters} {rule : EqualityRule} {o : Outcome} :
    rule.Meets params o ↔ rule.outcome params = o :=
  ⟨outcome_of_meets, fun h => h ▸ meets_outcome params rule⟩

theorem apply_eq {params found : Parameters} {rule : EqualityRule}
    (h : found.get? rule.key = params.stripped? rule.key) :
    (apply found rule).value = (rule.outcome params).clause?.toList ∧
      (apply found rule).notices = (rule.outcome params).notice?.toList := by
  unfold apply outcome
  rw [h]
  cases params.stripped? rule.key with
  | none => exact ⟨rfl, rfl⟩
  | some text =>
    dsimp only
    cases hread : rule.kind.read? text with
    | none => exact ⟨rfl, rfl⟩
    | some value => exact ⟨congrArg (fun text => [Clause.mk text [value]]) (by simp), rfl⟩

theorem applyAll_eq {params found : Parameters} {rules : List EqualityRule}
    (h : ∀ rule ∈ rules, found.get? rule.key = params.stripped? rule.key) :
    (applyAll rules found).value = (rules.map (outcome params)).filterMap Outcome.clause? ∧
      (applyAll rules found).notices = (rules.map (outcome params)).filterMap Outcome.notice? := by
  rw [applyAll, Traced.value_collect, Traced.notices_collect]
  induction rules with
  | nil => exact ⟨rfl, rfl⟩
  | cons rule rules ih =>
    obtain ⟨hrule, hrules⟩ := List.forall_mem_cons.1 h
    obtain ⟨hvalue, hnotices⟩ := apply_eq hrule
    obtain ⟨hvalues, hall⟩ := ih hrules
    rw [List.flatMap_cons, List.flatMap_cons, hvalue, hnotices, hvalues, hall, List.map_cons,
      List.filterMap_cons, List.filterMap_cons]
    constructor
    · cases (rule.outcome params).clause? <;> rfl
    · cases (rule.outcome params).notice? <;> rfl

theorem forall₂_meets_iff {params : Parameters} {rules : List EqualityRule}
    {outcomes : List Outcome} :
    List.Forall₂ (Meets params) rules outcomes ↔ outcomes = rules.map (outcome params) := by
  have hmeets : Meets params = fun rule o => rule.outcome params = o :=
    funext fun rule => funext fun o => propext meets_iff
  rw [hmeets, ← List.forall₂_map_left_iff (R := Eq), List.forall₂_eq_eq_eq]
  exact eq_comm

theorem push_bound (start : Restriction) (column : String) (value : Value) :
    start.push { text := column ++ " = ?", values := [value] } =
      { texts := start.texts ++ [column ++ " = ?"], values := start.values ++ [value] } :=
  if_neg (by simp [Clause.isEmpty])

theorem pushAll_clauses (start : Restriction) (outcomes : List Outcome) :
    start.pushAll (outcomes.filterMap Outcome.clause?) =
      { texts := start.texts ++ outcomes.filterMap Outcome.text?
        values := start.values ++ outcomes.filterMap Outcome.value? } := by
  induction outcomes generalizing start with
  | nil => simp [Restriction.pushAll]
  | cons o outcomes ih =>
    cases o with
    | bound column value =>
      change (start.push { text := column ++ " = ?", values := [value] }).pushAll
        (outcomes.filterMap Outcome.clause?) = _
      rw [push_bound, ih, List.append_assoc, List.append_assoc]
      rfl
    | skipped => exact ih start
    | dropped => exact ih start

/-- The table of the parameters that the rules ask for may hold its entries in any order. A rule
gets from it what the request has for the rule, also where several rules ask for one key. -/
theorem rules_are_applied_one_by_one (rules : List EqualityRule) (params found : Parameters)
    (h : found.SameEntries (params.pick (rules.map (·.key)))) (start : Restriction) :
    let applied := applyAll rules found
    ∃ outcomes : List Outcome,
      (∀ others, List.Forall₂ (Meets params) rules others ↔ others = outcomes) ∧
      start.pushAll applied.value =
        { texts := start.texts ++ outcomes.filterMap Outcome.text?
          values := start.values ++ outcomes.filterMap Outcome.value? } ∧
      applied.notices = outcomes.filterMap Outcome.notice? := by
  intro applied
  have hfound : ∀ rule ∈ rules, found.get? rule.key = params.stripped? rule.key :=
    fun rule hrule => Parameters.get?_of_sameEntries h (List.mem_map_of_mem hrule)
  obtain ⟨hvalue, hnotices⟩ := applyAll_eq hfound
  refine ⟨rules.map (outcome params), fun others => forall₂_meets_iff, ?_, hnotices⟩
  rw [hvalue, pushAll_clauses]

theorem rules_are_applied_one_by_one_repeated :
    let rules : List EqualityRule := [{ key := "id", column := "t.id", kind := .integer },
      { key := "rate", column := "t.rate", kind := .real },
      { key := "note", column := "t.note", kind := .text },
      { key := "id", column := "t.code", kind := .text }]
    let params : Parameters :=
      { entries := [("note", " \t"), ("id", " +007\u3000"), ("rate", "1e400"), ("other", "1")] }
    let found : Parameters := { entries := [("rate", "1e400"), ("id", "+007")] }
    found.SameEntries (params.pick (rules.map (·.key))) ∧
      Restriction.pushAll {} (applyAll rules found).value =
        { texts := ["t.id = ?", "t.code = ?"], values := [.integer 7, .text "+007"] } ∧
      (applyAll rules found).notices = [.equalityUnreadable "rate" .real] := by
  intro rules params found
  have hsame : found.SameEntries (params.pick (rules.map (·.key))) := by decide +kernel
  have houtcomes : rules.map (outcome params) = [.bound "t.id" (.integer 7), .dropped "rate" .real,
      .skipped, .bound "t.code" (.text "+007")] := by decide +kernel
  obtain ⟨outcomes, hmeets, hpushed, hnotices⟩ :=
    rules_are_applied_one_by_one rules params found hsame {}
  obtain rfl := (hmeets _).1 (forall₂_meets_iff.2 houtcomes.symm)
  exact ⟨hsame, hpushed, hnotices⟩

end EqualityRule
end Listing
