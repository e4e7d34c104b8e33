import Listing.Endpoint
import Listing.Resource.Samples
import Mathlib.Data.List.Forall2

set_option autoImplicit false

namespace Listing

open Sql

/-- The rows of the page, all of them decoded. -/
inductive PageGiven (format : RowFormat) : List Reply → List format.Item → Prop
  | rows {records : List Record} {rest : List Reply} {rows : List format.Item}
    (h : List.Forall₂ (fun record row => format.decode record = .ok row) records rows) :
    PageGiven format (.rows records :: rest) rows

inductive PageFault (format : RowFormat) : List Reply → Fault → Prop
  | noReply : PageFault format [] Session.exhausted
  | refused (f : Fault) (rest : List Reply) : PageFault format (.fault f :: rest) f
  /-- Of the rows that do not decode the first one counts. -/
  | row {before after : List Record} {bad : Record} {rest : List Reply} {f : Fault}
    (hbefore : ∀ record ∈ before, ∃ row, format.decode record = .ok row)
    (hbad : format.decode bad = .error f) :
    PageFault format (.rows (before ++ bad :: after) :: rest) f

inductive Counts : List Record → UInt64 → Prop
  | noRow : Counts [] 0
  | number {record : Record} {rest : List Record} {name : String} {i : Int64} {n : UInt64}
    (h : firstColumn? record.entries = some (name, .integer i)) (hn : i.toInt = n.toNat) :
    Counts (record :: rest) n
  | negative {record : Record} {rest : List Record} {name : String} {i : Int64}
    (h : firstColumn? record.entries = some (name, .integer i)) (hi : i.toInt < 0) :
    Counts (record :: rest) 0

inductive TotalFault : List Reply → Fault → Prop
  | noReply (page : Reply) : TotalFault [page] Session.exhausted
  | refused (page : Reply) (f : Fault) (rest : List Reply) : TotalFault (page :: .fault f :: rest) f
  | undecodable {page : Reply} {records : List Record} {rest : List Reply}
    (h : ∀ n, ¬ Counts records n) : TotalFault (page :: .rows records :: rest) undecodable

def FirstFault (format : RowFormat) (replies : List Reply) (f : Fault) : Prop :=
  PageFault format replies f ∨ (∃ rows, PageGiven format replies rows) ∧ TotalFault replies f

section Decoding

variable {α β ε : Type} {f : α → Except ε β}

theorem mapM_eq_ok {as : List α} {bs : List β} (h : List.Forall₂ (fun a b => f a = .ok b) as bs) :
    as.mapM f = .ok bs := by
  induction h with
  | nil => rfl
  | cons ha _ ih => rw [List.mapM_cons, ha, ih]; rfl

theorem mapM_eq_error {before : List α} {bad : α} {e : ε}
    (hbefore : ∀ a ∈ before, ∃ b, f a = .ok b) (hbad : f bad = .error e) (after : List α) :
    (before ++ bad :: after).mapM f = .error e := by
  induction before with
  | nil => rw [List.nil_append, List.mapM_cons, hbad]; rfl
  | cons a before ih =>
    obtain ⟨b, hb⟩ := hbefore a List.mem_cons_self
    rw [List.cons_append, List.mapM_cons, hb, ih fun a' ha' => hbefore a' (.tail _ ha')]
    rfl

end Decoding

theorem countOf_eq_ok {records : List Record} {n : UInt64} (h : Counts records n) :
    countOf records = .ok n := by
  cases h with
  | noRow => rfl
  | number h hn => simp [countOf, h, hn]
  | @negative record rest name i h hi =>
    have hzero : i.toInt.toNat = 0 := by omega
    simp [countOf, h, hzero]

theorem counts_or_undecodable (records : List Record) :
    (∃ n, Counts records n) ∨
      (∀ n, ¬ Counts records n) ∧ countOf records = .error undecodable := by
  cases hc : countOf records with
  | ok n =>
    left
    unfold countOf at hc
    split at hc
    · exact ⟨0, .noRow⟩
    · split at hc
      · rename_i i h
        rcases Int.lt_or_le i.toInt 0 with hi | hi
        · exact ⟨0, .negative h hi⟩
        · have hlt : i.toInt < 2 ^ 63 := i.toInt_lt
          have hsize : i.toInt.toNat < UInt64.size := by unfold UInt64.size; omega
          refine ⟨UInt64.ofNat i.toInt.toNat, .number h ?_⟩
          rw [UInt64.toNat_ofNat_of_lt' hsize, Int.toNat_of_nonneg hi]
      · exact nomatch hc
  | error f =>
    right
    have hnone (n : UInt64) : ¬ Counts records n := fun h => by
      rw [countOf_eq_ok h] at hc
      exact nomatch hc
    unfold countOf at hc
    split at hc
    · exact nomatch hc
    · split at hc
      · exact nomatch hc
      · exact ⟨hnone, congrArg Except.error (Except.error.inj hc).symm⟩

def Notice.isListed : Notice → Bool
  | listed .. => true
  | _ => false

def Traced.NothingListed {α : Type} (x : Traced α) : Prop :=
  ∀ n ∈ x.notices, n.isListed = false

namespace Traced.NothingListed

variable {α β : Type}

theorem ofPure (a : α) : (pure a : Traced α).NothingListed := by
  simp [NothingListed]

theorem ofNote {n : Notice} (h : n.isListed = false) : (Traced.note n).NothingListed := by
  simp [NothingListed, h]

theorem bind {x : Traced α} {next : α → Traced β} (hx : x.NothingListed)
    (hnext : ∀ a, (next a).NothingListed) : (x >>= next).NothingListed := by
  intro n hn
  rw [notices_bind, List.mem_append] at hn
  exact hn.elim (hx n) (hnext x.value n)

theorem collect {f : α → Traced (List β)} (h : ∀ a, (f a).NothingListed) (as : List α) :
    (Traced.collect f as).NothingListed := by
  intro n hn
  rw [notices_collect, List.mem_flatMap] at hn
  obtain ⟨a, -, ha⟩ := hn
  exact h a n ha

theorem noted {n : Notice} (h : n.isListed = false) (a : α) :
    (do Traced.note n; return a : Traced α).NothingListed :=
  (ofNote h).bind fun _ => ofPure a

end Traced.NothingListed

section Parameters

open Traced

variable (params : Parameters)

theorem PageLimits.nothingListed (limits : PageLimits) : (limits.resolve params).NothingListed := by
  unfold PageLimits.resolve
  dsimp only
  split
  · exact .noted rfl _
  · exact (NothingListed.ofPure _).bind fun _ => .ofPure _

theorem SortRules.nothingListed (rules : SortRules) : (rules.resolve params).NothingListed := by
  refine .bind ?_ fun _ => .ofPure _
  unfold SortRules.resolveColumn
  split
  · exact .ofPure _
  · split
    · exact .ofPure _
    · exact .noted rfl _

theorem EqualityRule.nothingListed (rules : List EqualityRule) (found : Parameters) :
    (EqualityRule.applyAll rules found).NothingListed := by
  refine .collect (fun rule => ?_) rules
  unfold EqualityRule.apply
  split
  · exact .ofPure _
  · split
    · exact .ofPure _
    · exact .noted rfl _

theorem Filter.nothingListed_condition (fields : FieldTable) (element : Json.Value) :
    (Filter.condition fields element).NothingListed := by
  unfold Filter.condition
  split
  · exact .noted rfl _
  · split
    · exact .ofPure _
    · split
      · exact .noted rfl _
      · exact .ofPure _

theorem Filter.nothingListed (fields : FieldTable) :
    (Filter.conditions fields params).NothingListed := by
  unfold Filter.conditions
  split
  · exact .ofPure _
  · refine .bind ?_ fun items => .collect (Filter.nothingListed_condition fields) items
    unfold Filter.elements
    split
    · exact .ofPure _
    · exact .noted rfl _
    · exact .noted rfl _

theorem Resource.nothingListed (r : Resource) : (r.resolve params).NothingListed :=
  (PageLimits.nothingListed params r.limits).bind fun _ =>
    (Filter.nothingListed params r.fields).bind fun _ =>
      (SortRules.nothingListed params r.sorting).bind fun _ =>
        (EqualityRule.nothingListed _ _).bind fun _ => .ofPure _

end Parameters

@[simp] theorem Failure.isListed_notice (f : Failure) : f.notice.isListed = false := by
  cases f <;> rfl

namespace Run

variable {α β : Type} {x : Run α} {session left : Session}

theorem bind_ok {a : α} (h : x.run session = (.ok a, left)) (next : α → Run β) :
    (x >>= next).run session = (next a).run left := by
  have h' : x session = (.ok a, left) := h
  simp only [bind, ExceptT.bind, ExceptT.run, ExceptT.mk, StateT.bind, h', ExceptT.bindCont]

theorem bind_error {f : Fault} (h : x.run session = (.error f, left)) (next : α → Run β) :
    (x >>= next).run session = (.error f, left) := by
  have h' : x session = (.error f, left) := h
  simp only [bind, ExceptT.bind, ExceptT.run, ExceptT.mk, StateT.bind, h', ExceptT.bindCont]
  rfl

end Run

namespace Session

def after (session : Session) (statement : Statement) (replies : List Reply) : Session :=
  { replies, statements := session.statements ++ [statement] }

variable {session : Session} {rest : List Reply}

theorem ask_of_nil (h : session.replies = []) (statement : Statement) :
    (ask statement).run session = (.error exhausted, session.after statement []) := by
  simp only [ask, ExceptT.run_mk, h, after]

theorem ask_of_fault {f : Fault} (h : session.replies = .fault f :: rest)
    (statement : Statement) :
    (ask statement).run session = (.error f, session.after statement rest) := by
  simp only [ask, ExceptT.run_mk, h, after]

theorem ask_of_rows {records : List Record} (h : session.replies = .rows records :: rest)
    (statement : Statement) :
    (ask statement).run session = (.ok records, session.after statement rest) := by
  simp only [ask, ExceptT.run_mk, h, after]

@[simp] theorem decoded_run {α : Type} (x : Except Fault α) (session : Session) :
    (decoded x).run session = (x, session) :=
  rfl

end Session

namespace Endpoint

variable (e : Endpoint) (s : Selection) {session : Session}

/-- How a page and its count end: with a value or a fault, and the statements on record. -/
def Ends (session : Session) (x : Except Fault (List e.rows.Item × UInt64))
    (statements : List Statement) : Prop :=
  ∃ left, (e.fetch s).run session = (x, left) ∧ left.statements = session.statements ++ statements

theorem ends_of_pageFault {f : Fault} (h : PageFault e.rows session.replies f) :
    e.Ends s session (.error f) [e.resource.pageStatement e.dialect s] := by
  generalize hr : session.replies = replies at h
  cases h with
  | noReply => exact ⟨_, Run.bind_error (Session.ask_of_nil hr _) _, rfl⟩
  | refused f rest => exact ⟨_, Run.bind_error (Session.ask_of_fault hr _) _, rfl⟩
  | @row before after bad rest f hbefore hbad =>
    refine ⟨session.after (e.resource.pageStatement e.dialect s) rest, ?_, rfl⟩
    rw [fetch, Run.bind_ok (Session.ask_of_rows hr _),
      mapM_eq_error hbefore hbad, Run.bind_error (Session.decoded_run _ _)]

def total (rows : List e.rows.Item) : Run (List e.rows.Item × UInt64) := do
  let counted ← Session.ask (e.resource.countStatement e.dialect s)
  let total ← Session.decoded (countOf counted)
  return (rows, total)

theorem fetch_eq_total {records : List Record} {rest : List Reply} {rows : List e.rows.Item}
    (hr : session.replies = .rows records :: rest)
    (h : List.Forall₂ (fun record row => e.rows.decode record = .ok row) records rows) :
    (e.fetch s).run session =
      (e.total s rows).run (session.after (e.resource.pageStatement e.dialect s) rest) := by
  rw [fetch, Run.bind_ok (Session.ask_of_rows hr _), mapM_eq_ok h,
    Run.bind_ok (Session.decoded_run _ _), total]

theorem ends_of_totalFault {rows : List e.rows.Item} {f : Fault}
    (hpage : PageGiven e.rows session.replies rows) (h : TotalFault session.replies f) :
    e.Ends s session (.error f)
      [e.resource.pageStatement e.dialect s, e.resource.countStatement e.dialect s] := by
  generalize hr : session.replies = replies at hpage h
  obtain ⟨hrows⟩ := hpage
  rw [Ends, fetch_eq_total e s hr hrows, total]
  cases h with
  | noReply => exact ⟨_, Run.bind_error (Session.ask_of_nil rfl _) _, by simp [Session.after]⟩
  | refused => exact ⟨_, Run.bind_error (Session.ask_of_fault rfl _) _, by simp [Session.after]⟩
  | @undecodable _ counted _ hnone =>
    obtain ⟨n, hn⟩ | ⟨-, hcount⟩ := counts_or_undecodable counted
    · exact absurd hn (hnone n)
    · rw [Run.bind_ok (Session.ask_of_rows rfl _), hcount,
        Run.bind_error (Session.decoded_run _ _)]
      exact ⟨_, rfl, by simp [Session.after]⟩

variable (query : String)

def selected : Selection :=
  (e.resource.resolve (Parameters.ofQueryString query)).value

theorem list_of_error {f : Fault} {statements : List Statement}
    (h : e.Ends (e.selected query) session (.error f) statements) :
    (e.list query session).value.session.statements = session.statements ++ statements ∧
    (e.list query session).value.response = (Failure.ofFault f).answer.value ∧
    (e.list query session).notices =
      (e.resource.resolve (Parameters.ofQueryString query)).notices ++
        [(Failure.ofFault f).notice] := by
  obtain ⟨left, hrun, hleft⟩ := h
  rw [selected] at hrun
  simp only [list, Traced.value_bind, Traced.notices_bind, hrun]
  exact ⟨hleft, rfl, rfl⟩

theorem list_of_firstFault {f : Fault} (h : FirstFault e.rows session.replies f) :
    (e.list query session).value.response = .json (Failure.ofFault f).status
      (.object [("success", .bool false), ("error", .string (Failure.ofFault f).message)]) ∧
    (e.list query session).NothingListed := by
  have hends : ∃ statements, e.Ends (e.selected query) session (.error f) statements := by
    rcases h with hpage | ⟨⟨rows, hpage⟩, htotal⟩
    · exact ⟨_, e.ends_of_pageFault _ hpage⟩
    · exact ⟨_, e.ends_of_totalFault _ hpage htotal⟩
  obtain ⟨statements, hends⟩ := hends
  obtain ⟨-, hresponse, hnotices⟩ := e.list_of_error query hends
  refine ⟨hresponse, fun n hn => ?_⟩
  rw [hnotices, List.mem_append, List.mem_singleton] at hn
  rcases hn with hn | rfl
  · exact e.resource.nothingListed _ n hn
  · exact (Failure.ofFault f).isListed_notice

theorem handle_get {request : Request} (hmethod : request.method = "GET")
    (hpath : (Target.ofText request.target).path = e.path) :
    e.handle request session = e.list (Target.ofText request.target).query session := by
  simp [handle, hmethod, hpath]

end Endpoint

end Listing
