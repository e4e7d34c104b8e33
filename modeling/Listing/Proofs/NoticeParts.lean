import Listing.Proofs.Agreement
import Listing.Proofs.EqualityOutcomes
import Listing.Proofs.FilterElements
import Listing.Proofs.OrderSource
import Listing.Proofs.PageTexts
import Listing.Resource.Samples

set_option autoImplicit false

namespace Listing

open Numeric

/-- A text gives a count if it is a decimal between blanks, of which at least one is left once it is
rounded and its fraction is cut off. More than 64 bits hold is the most they can hold. -/
def Text.GivesCount (text : String) (n : UInt64) : Prop :=
  ∃ d : Decimal, IsCore text.toList d.chars ∧ d.value < 2 ^ 1024 - 2 ^ 970 ∧ 1 ≤ d.wholePart ∧
    n.toNat = min d.wholePart uint64Max

theorem Numeric.Binary64.isFinite_of_floor {x : Binary64} {m : Nat} (h : x.floor? = some m) :
    x.isFinite = true := by
  cases x with
  | finite => rfl
  | infinite => exact nomatch h
  | nan => exact nomatch h

theorem Numeric.Decimal.value_lt_of_isFinite {d : Decimal}
    (h : d.literal.toBinary64.isFinite = true) : d.value < 2 ^ 1024 - 2 ^ 970 := by
  have hmagnitude := d.isFinite_iff.1 h
  have hnonneg := d.magnitude_nonneg
  rw [Decimal.value_eq]
  split
  · exact (neg_le_self hnonneg).trans_lt hmagnitude
  · exact hmagnitude

theorem readPositive?_eq_some_iff {text : String} {n : UInt64} :
    readPositive? text = some n ↔ Text.GivesCount text n := by
  constructor
  · intro h
    have hread := h
    rw [readPositive_eq] at hread
    obtain ⟨m, hm, -⟩ := Option.bind_eq_some_iff.1 hread
    obtain ⟨x, hx, hfloor⟩ := Option.bind_eq_some_iff.1 hm
    have hfinite := Binary64.isFinite_of_floor hfloor
    obtain ⟨d, hchars, rfl⟩ := Binary64.exists_decimal_of_read hx hfinite
    have hsmall := Decimal.value_lt_of_isFinite hfinite
    rw [readPositive_of_decimal hchars.symm hsmall, positive?_eq_some_iff] at h
    refine ⟨d, ?_, hsmall, h⟩
    rw [hchars, Text.toList_strip]
    exact Text.isCore_stripChars _
  · rintro ⟨d, hcore, hsmall, h⟩
    have hchars : (Text.strip text).toList = d.chars := by
      rw [Text.toList_strip, Text.stripChars_eq_iff.2 hcore]
    rw [readPositive_of_decimal hchars hsmall, positive?_eq_some_iff.2 h]

namespace PageLimits

/-- The size that a request asks for; where it gives none, the default is asked for. -/
inductive Requests (limits : PageLimits) (params : Parameters) : UInt64 → Prop
  | given {text : String} {n : UInt64} (h : params.get? "pageSize" = some text)
    (hn : Text.GivesCount text n) : Requests limits params n
  | default {n : UInt64} (h : ∀ text ∈ params.get? "pageSize", ∀ n, ¬ Text.GivesCount text n)
    (hn : n.toNat = max 1 limits.default.toNat) : Requests limits params n

inductive Notes (limits : PageLimits) (params : Parameters) : List Notice → Prop
  | capped {requested greatest : UInt64} (h : limits.Requests params requested)
    (hgreatest : greatest.toNat = max 1 limits.greatest.toNat) (hover : greatest < requested) :
    Notes limits params [.pageSizeCapped requested greatest]
  | uncapped {requested : UInt64} (h : limits.Requests params requested)
    (hfits : requested.toNat ≤ max 1 limits.greatest.toNat) : Notes limits params []

variable {limits : PageLimits} {params : Parameters}

theorem requests_iff {n : UInt64} :
    limits.Requests params n ↔ limits.requestedSize params = n := by
  have hdefault : (max limits.default 1).toNat = max 1 limits.default.toNat :=
    (toNat_max ..).trans (Nat.max_comm ..)
  unfold requestedSize
  constructor
  · rintro (⟨h, hn⟩ | ⟨h, hn⟩)
    · rw [h, Option.bind_some, readPositive?_eq_some_iff.2 hn, Option.getD_some]
    · have hnone : (params.get? "pageSize").bind readPositive? = none :=
        Option.bind_eq_none_iff.2 fun text htext => Option.eq_none_iff_forall_ne_some.2
          fun n hread => h text htext n (readPositive?_eq_some_iff.1 hread)
      rw [hnone, Option.getD_none, ← UInt64.toNat_inj, hdefault, hn]
  · rintro rfl
    cases hread : (params.get? "pageSize").bind readPositive? with
    | some n =>
      obtain ⟨text, htext, hn⟩ := Option.bind_eq_some_iff.1 hread
      exact .given htext (readPositive?_eq_some_iff.1 hn)
    | none =>
      refine .default (fun text htext n hn => ?_) hdefault
      have hnone := Option.bind_eq_none_iff.1 hread text htext
      rw [readPositive?_eq_some_iff.2 hn] at hnone
      exact nomatch hnone

theorem notices_resolve (limits : PageLimits) (params : Parameters) :
    (limits.resolve params).notices =
      if limits.cap < limits.requestedSize params then
        [.pageSizeCapped (limits.requestedSize params) limits.cap]
      else [] := by
  unfold resolve
  dsimp only
  split <;> rfl

theorem notes_iff {notices : List Notice} :
    limits.Notes params notices ↔ (limits.resolve params).notices = notices := by
  have hcap : limits.cap.toNat = max 1 limits.greatest.toNat :=
    limits.toNat_cap.trans (Nat.max_comm ..)
  rw [notices_resolve]
  constructor
  · rintro (⟨h, hgreatest, hover⟩ | ⟨h, hfits⟩)
    · obtain rfl := UInt64.toNat_inj.1 (hgreatest.trans hcap.symm)
      rw [requests_iff.1 h, if_pos hover]
    · rw [requests_iff.1 h, if_neg]
      rwa [UInt64.lt_iff_toNat_lt, hcap, Nat.not_lt]
  · rintro rfl
    split
    · rename_i hover
      exact .capped (requests_iff.2 rfl) hcap hover
    · rename_i hfits
      refine .uncapped (requests_iff.2 rfl) ?_
      rwa [UInt64.lt_iff_toNat_lt, hcap, Nat.not_lt] at hfits

theorem Notes.message {notices : List Notice} (h : limits.Notes params notices) :
    ∀ n ∈ notices, n.message = "Capping requested page size" := by
  cases h with
  | capped => exact List.forall_mem_singleton.2 rfl
  | uncapped => exact List.forall_mem_nil _

theorem notices_congr (limits : PageLimits) {p q : Parameters}
    (h : p.get? "pageSize" = q.get? "pageSize") :
    (limits.resolve p).notices = (limits.resolve q).notices := by
  rw [notices_resolve, notices_resolve, requestedSize, requestedSize, h]

end PageLimits

namespace Filter

/-- A text that is no array has a notice of its own; of an array each element is noticed or not. -/
inductive Notes (fields : FieldTable) (params : Parameters) : List Notice → Prop
  | absent (h : params.get? "filters" = none) : Notes fields params []
  | notJson {raw : String} (h : params.get? "filters" = some raw)
    (hraw : Json.Value.ofText? raw.toList = none) : Notes fields params [.filtersNotJson raw]
  | notArray {raw : String} {value : Json.Value} (h : params.get? "filters" = some raw)
    (hraw : Json.Value.ofText? raw.toList = some value) (hvalue : ∀ items, value ≠ .array items) :
    Notes fields params [.filtersNotArray]
  | array {raw : String} {items : List Json.Value} {fates : List Fate}
    (h : params.get? "filters" = some raw)
    (hraw : Json.Value.ofText? raw.toList = some (.array items))
    (hfates : List.Forall₂ (Becomes fields) items fates) :
    Notes fields params (fates.filterMap Fate.notice?)

variable {fields : FieldTable} {params : Parameters}

theorem notices_of_notes {notices : List Notice} (h : Notes fields params notices) :
    (conditions fields params).notices = notices := by
  cases h with
  | absent h => rw [conditions, h]; rfl
  | notJson h hraw => simp [conditions, elements, h, hraw, Traced.collect]
  | @notArray raw value h hraw hvalue =>
    cases value with
    | array items => exact absurd rfl (hvalue items)
    | _ => simp [conditions, elements, h, hraw, Traced.collect]
  | array h hraw hfates =>
    rw [(conditions_of_fates fields h hraw).2, (forall₂_becomes_iff fields).1 hfates]

theorem exists_notes (fields : FieldTable) (params : Parameters) :
    ∃ notices, Notes fields params notices := by
  cases h : params.get? "filters" with
  | none => exact ⟨_, .absent h⟩
  | some raw =>
    cases hraw : Json.Value.ofText? raw.toList with
    | none => exact ⟨_, .notJson h hraw⟩
    | some value =>
      cases value with
      | array items => exact ⟨_, .array h hraw ((forall₂_becomes_iff fields).2 rfl)⟩
      | _ => exact ⟨_, .notArray h hraw nofun⟩

theorem notes_iff {notices : List Notice} :
    Notes fields params notices ↔ (conditions fields params).notices = notices := by
  refine ⟨notices_of_notes, ?_⟩
  rintro rfl
  obtain ⟨notices, h⟩ := exists_notes fields params
  rwa [notices_of_notes h]

theorem Notes.message {notices : List Notice} (h : Notes fields params notices) :
    ∀ n ∈ notices, n.message ∈ ["Ignoring invalid JSON in filters parameter",
      "Ignoring filters parameter that is not a JSON array",
      "Dropping malformed filter descriptor", "Dropping filter on unlisted field"] := by
  cases h with
  | absent => exact List.forall_mem_nil _
  | notJson => exact List.forall_mem_singleton.2 (by simp [Notice.message])
  | notArray => exact List.forall_mem_singleton.2 (by simp [Notice.message])
  | array =>
    intro n hn
    obtain ⟨fate, -, hnotice⟩ := List.mem_filterMap.1 hn
    cases fate with
    | malformed => cases hnotice; simp [Notice.message]
    | unlisted => cases hnotice; simp [Notice.message]
    | condition => cases hnotice
    | unusable => cases hnotice

end Filter

namespace SortRules

inductive Notes (rules : SortRules) (params : Parameters) : List Notice → Prop
  | absent (h : params.get? "sortField" = none) : Notes rules params []
  | listed {name : String} (h : params.get? "sortField" = some name) (hname : name ∈ rules.names) :
    Notes rules params []
  | unlisted {name : String} (h : params.get? "sortField" = some name)
    (hname : name ∉ rules.names) : Notes rules params [.sortFieldUnknown name]

variable {rules : SortRules} {params : Parameters}

theorem notices_resolve (rules : SortRules) (params : Parameters) :
    (rules.resolve params).notices = (rules.resolveColumn params).notices :=
  List.append_nil _

theorem notes_iff {notices : List Notice} :
    rules.Notes params notices ↔ (rules.resolve params).notices = notices := by
  rw [notices_resolve, resolveColumn]
  constructor
  · rintro (h | ⟨h, hname⟩ | ⟨h, hname⟩)
    · rw [h]
      rfl
    · obtain ⟨column, hcolumn⟩ :=
        Option.ne_none_iff_exists'.1 (mt column?_eq_none_iff.1 (not_not_intro hname))
      simp only [h, hcolumn, Traced.notices_pure]
    · simp only [h, column?_eq_none_iff.2 hname]
      rfl
  · rintro rfl
    cases h : params.get? "sortField" with
    | none => exact .absent h
    | some name =>
      dsimp only
      cases hcolumn : rules.column? name with
      | some column =>
        refine .listed h (Classical.not_not.1 fun hname => ?_)
        exact Option.some_ne_none column (hcolumn.symm.trans (column?_eq_none_iff.2 hname))
      | none => exact .unlisted h (column?_eq_none_iff.1 hcolumn)

theorem Notes.message {notices : List Notice} (h : rules.Notes params notices) :
    ∀ n ∈ notices, n.message = "Unknown sort field, using default" := by
  cases h with
  | absent => exact List.forall_mem_nil _
  | listed => exact List.forall_mem_nil _
  | unlisted => exact List.forall_mem_singleton.2 rfl

theorem notices_congr (rules : SortRules) {p q : Parameters}
    (h : p.get? "sortField" = q.get? "sortField") :
    (rules.resolve p).notices = (rules.resolve q).notices := by
  rw [notices_resolve, notices_resolve, resolveColumn, resolveColumn, h]

end SortRules

namespace EqualityRule

def Notes (rules : List EqualityRule) (params : Parameters) (notices : List Notice) : Prop :=
  ∃ outcomes, List.Forall₂ (Meets params) rules outcomes ∧
    notices = outcomes.filterMap Outcome.notice?

theorem notices_applyAll (rules : List EqualityRule) (params : Parameters) :
    (applyAll rules (params.pick (rules.map (·.key)))).notices =
      (rules.map (outcome params)).filterMap Outcome.notice? :=
  (applyAll_eq fun _ hrule => get?_pick_key hrule params).2

theorem notes_iff {rules : List EqualityRule} {params : Parameters} {notices : List Notice} :
    Notes rules params notices ↔
      (applyAll rules (params.pick (rules.map (·.key)))).notices = notices := by
  simp only [Notes, forall₂_meets_iff, exists_eq_left, notices_applyAll]
  exact eq_comm

theorem Notes.message {rules : List EqualityRule} {params : Parameters} {notices : List Notice}
    (h : Notes rules params notices) :
    ∀ n ∈ notices, n.message = "Dropping equality filter with unparsable value" := by
  obtain ⟨outcomes, -, rfl⟩ := h
  intro n hn
  obtain ⟨o, -, hnotice⟩ := List.mem_filterMap.1 hn
  cases o with
  | dropped => cases hnotice; rfl
  | skipped => cases hnotice
  | bound => cases hnotice

end EqualityRule

structure NoticeParts where
  capping : List Notice
  filters : List Notice
  order : List Notice
  equality : List Notice
  deriving DecidableEq

structure NoticeParts.Worded (parts : NoticeParts) : Prop where
  capping : ∀ n ∈ parts.capping, n.message = "Capping requested page size"
  filters : ∀ n ∈ parts.filters, n.message ∈ ["Ignoring invalid JSON in filters parameter",
    "Ignoring filters parameter that is not a JSON array", "Dropping malformed filter descriptor",
    "Dropping filter on unlisted field"]
  order : ∀ n ∈ parts.order, n.message = "Unknown sort field, using default"
  equality : ∀ n ∈ parts.equality, n.message = "Dropping equality filter with unparsable value"

structure Resource.Notes (r : Resource) (params : Parameters) (parts : NoticeParts) : Prop where
  capping : r.limits.Notes params parts.capping
  filters : Filter.Notes r.fields params parts.filters
  order : r.sorting.Notes params parts.order
  equality : EqualityRule.Notes r.equality params parts.equality

namespace Resource

def noticeParts (r : Resource) (params : Parameters) : NoticeParts where
  capping := (r.limits.resolve params).notices
  filters := (Filter.conditions r.fields params).notices
  order := (r.sorting.resolve params).notices
  equality := (EqualityRule.applyAll r.equality (params.pick r.keys)).notices

variable {r : Resource} {params : Parameters} {parts : NoticeParts}

theorem notes_iff : r.Notes params parts ↔ parts = r.noticeParts params := by
  constructor
  · intro h
    cases parts with
    | mk capping filters order equality =>
      obtain rfl := PageLimits.notes_iff.1 h.capping
      obtain rfl := Filter.notes_iff.1 h.filters
      obtain rfl := SortRules.notes_iff.1 h.order
      obtain rfl := EqualityRule.notes_iff.1 h.equality
      rfl
  · rintro rfl
    exact ⟨PageLimits.notes_iff.2 rfl, Filter.notes_iff.2 rfl, SortRules.notes_iff.2 rfl,
      EqualityRule.notes_iff.2 rfl⟩

theorem notices_resolve (r : Resource) (params : Parameters) :
    (r.resolve params).notices =
      (r.noticeParts params).capping ++ (r.noticeParts params).filters ++
        (r.noticeParts params).order ++ (r.noticeParts params).equality := by
  unfold resolve
  simp only [Traced.notices_bind, Traced.notices_pure, List.append_nil, List.append_assoc]
  rfl

theorem worded_of_notes (h : r.Notes params parts) : parts.Worded where
  capping := h.capping.message
  filters := h.filters.message
  order := h.order.message
  equality := h.equality.message

/-- Whatever a request asks for in vain is noticed, part by part and in the order in which the parts
are resolved, and no part is different for what another part is about. -/
theorem notices_are_complete_and_in_order (r : Resource) :
    (∀ params : Parameters, ∃ parts : NoticeParts,
      (∀ others, r.Notes params others ↔ others = parts) ∧ parts.Worded ∧
      (r.resolve params).notices =
        parts.capping ++ parts.filters ++ parts.order ++ parts.equality) ∧
    ∀ (p q : Parameters) (parts parts' : NoticeParts), r.Notes p parts → r.Notes q parts' →
      (p.get? "pageSize" = q.get? "pageSize" → parts.capping = parts'.capping) ∧
      (p.get? "filters" = q.get? "filters" → parts.filters = parts'.filters) ∧
      (p.get? "sortField" = q.get? "sortField" → parts.order = parts'.order) ∧
      (p.AgreeOn q r.keys → parts.equality = parts'.equality) := by
  refine ⟨fun params => ⟨r.noticeParts params, fun others => notes_iff,
    worded_of_notes (notes_iff.2 rfl), r.notices_resolve params⟩, fun p q parts parts' hp hq => ?_⟩
  obtain rfl := notes_iff.1 hp
  obtain rfl := notes_iff.1 hq
  refine ⟨fun h => r.limits.notices_congr h, fun h => ?_, fun h => r.sorting.notices_congr h,
    fun h => ?_⟩
  · exact congrArg Traced.notices
      (Filter.conditions_congr r.fields (List.forall_mem_singleton.2 h))
  · rw [noticeParts, noticeParts, Parameters.pick_congr h]

theorem notices_are_complete_and_in_order_participants :
    let filters := "[7,[\"ghost\",\"\",1],[\"ghost\"],[\"Role\",null,\"dev\"]]"
    let p : Parameters :=
      { entries := [("domain_id", " x "), ("role", " "), ("sortField", "p.name"),
          ("filters", filters), ("pageSize", "100.9"), ("pageSize", "1e3")] }
    let q : Parameters :=
      { entries := [("sortField", "p.name"), ("pageSize", "100.9"), ("domain_id", "4"),
          ("filters", filters)] }
    let dropped := [.descriptorMalformed, .fieldUnlisted "ghost", .fieldUnlisted "Role"]
    let parts : NoticeParts :=
      { capping := [.pageSizeCapped 1000 100], filters := dropped
        order := [.sortFieldUnknown "p.name"]
        equality := [.equalityUnreadable "domain_id" .integer] }
    let parts' : NoticeParts :=
      { capping := [], filters := dropped, order := [.sortFieldUnknown "p.name"], equality := [] }
    participants.Notes p parts ∧ participants.Notes q parts' ∧
      (participants.resolve p).notices =
        [.pageSizeCapped 1000 100, .descriptorMalformed, .fieldUnlisted "ghost",
          .fieldUnlisted "Role", .sortFieldUnknown "p.name",
          .equalityUnreadable "domain_id" .integer] ∧
      parts.filters = parts'.filters ∧ parts.order = parts'.order := by
  intro filters p q dropped parts parts'
  have hp : participants.Notes p parts := notes_iff.2 (by decide +kernel)
  have hq : participants.Notes q parts' := notes_iff.2 (by decide +kernel)
  obtain ⟨hcomplete, hapart⟩ := notices_are_complete_and_in_order participants
  obtain ⟨found, hfound, -, hnotices⟩ := hcomplete p
  obtain rfl := (hfound parts).1 hp
  obtain ⟨-, hfilters, horder, -⟩ := hapart p q parts parts' hp hq
  exact ⟨hp, hq, hnotices, hfilters rfl, horder rfl⟩

end Resource

end Listing
