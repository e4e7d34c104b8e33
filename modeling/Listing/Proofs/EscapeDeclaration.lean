import Listing.Proofs.Layout

/-!
Escape characters declared for SQLite. The adaptation replaces a fixed text wherever it occurs in
the finished statement; in the statements of a request it occurs at the placeholders of `LIKE` and
nowhere else. So just these are followed by the declaration, and taking the declarations out again
gives back the statement as it was.
-/

set_option autoImplicit false

namespace Listing

open Sql

namespace Sql

/-- Every occurrence of `old`, which is not empty, from left to right; what has been put in is not
looked at again. -/
def replaceAll (old new : List Char) (s : List Char) : List Char :=
  match s with
  | [] => []
  | c :: rest =>
    if old.isPrefixOf (c :: rest) then new ++ replaceAll old new (rest.drop (old.length - 1))
    else c :: replaceAll old new rest
termination_by s.length
decreasing_by
  · simp only [List.length_drop, List.length_cons]; omega
  · exact Nat.lt_succ_self _

theorem replaceAll_of_prefix {old : List Char} (hne : old ≠ []) (new rest : List Char) :
    replaceAll old new (old ++ rest) = new ++ replaceAll old new rest := by
  obtain ⟨c, old, rfl⟩ := List.exists_cons_of_ne_nil hne
  have hfound : (c :: old).isPrefixOf (c :: (old ++ rest)) = true :=
    List.isPrefixOf_iff_prefix.2 (List.prefix_append (c :: old) rest)
  rw [List.cons_append, replaceAll, if_pos hfound]
  simp

theorem replaceAll_cons {old : List Char} {c : Char} {rest : List Char} (h : ¬ old <+: c :: rest)
    (new : List Char) : replaceAll old new (c :: rest) = c :: replaceAll old new rest := by
  rw [replaceAll, if_neg (mt List.isPrefixOf_iff_prefix.1 h)]

variable {key s : List Char}

theorem replaceAll_of_not_mem (hs : '?' ∉ s) (d new : List Char) :
    replaceAll (key ++ '?' :: d) new s = s := by
  induction s with
  | nil => rw [replaceAll]
  | cons c s ih =>
    have hnone : ¬ key ++ '?' :: d <+: c :: s := fun h => hs (h.subset (by simp))
    rw [replaceAll_cons hnone, ih (mt (List.mem_cons_of_mem c) hs)]

theorem append_mark_prefix_iff (hkey : '?' ∉ key) (hs : '?' ∉ s) (d t : List Char) :
    key ++ '?' :: d <+: s ++ '?' :: t ↔ key = s ∧ d <+: t := by
  induction key generalizing s with
  | nil =>
    cases s with
    | nil => simp
    | cons c s =>
      have hc : c ≠ '?' := fun h => hs (by simp [h])
      simp [Ne.symm hc]
  | cons k key ih =>
    cases s with
    | nil =>
      have hk : k ≠ '?' := fun h => hkey (by simp [h])
      simp [hk]
    | cons c s =>
      have hrest := ih (mt (List.mem_cons_of_mem k) hkey) (mt (List.mem_cons_of_mem c) hs)
      rw [List.cons_append, List.cons_append, List.cons_prefix_cons, hrest, List.cons.injEq,
        and_assoc]

/-- Up to the first question mark of a text there is one place at most where the key can stand. -/
theorem replaceAll_append_mark (hkey : '?' ∉ key) (hs : '?' ∉ s) (d e t : List Char) :
    replaceAll (key ++ '?' :: d) (key ++ '?' :: e) (s ++ '?' :: t) =
      if key <:+ s ∧ d <+: t then
        s ++ '?' :: e ++ replaceAll (key ++ '?' :: d) (key ++ '?' :: e) (t.drop d.length)
      else s ++ '?' :: replaceAll (key ++ '?' :: d) (key ++ '?' :: e) t := by
  induction s with
  | nil =>
    have hfirst := append_mark_prefix_iff hkey hs d t
    by_cases h : key = [] ∧ d <+: t
    · obtain ⟨rfl, after, rfl⟩ := h
      rw [if_pos ⟨List.suffix_rfl, List.prefix_append ..⟩, List.drop_left]
      exact replaceAll_of_prefix (List.cons_ne_nil '?' d) _ after
    · rw [if_neg (by rwa [List.suffix_nil])]
      exact replaceAll_cons (mt hfirst.1 h) _
  | cons c s ih =>
    have hfirst := append_mark_prefix_iff hkey hs d t
    by_cases h : key = c :: s ∧ d <+: t
    · obtain ⟨rfl, after, rfl⟩ := h
      have hne : c :: s ++ '?' :: d ≠ [] := List.cons_ne_nil c _
      have hfound := replaceAll_of_prefix hne (c :: s ++ '?' :: e) after
      rw [if_pos ⟨List.suffix_rfl, List.prefix_append ..⟩, List.drop_left, ← hfound]
      simp
    · have hlater : key <:+ c :: s ∧ d <+: t ↔ key <:+ s ∧ d <+: t := by
        rw [List.suffix_cons_iff]
        tauto
      have hnone : ¬ key ++ '?' :: d <+: c :: (s ++ '?' :: t) := mt hfirst.1 h
      rw [List.cons_append, replaceAll_cons hnone, ih (mt (List.mem_cons_of_mem c) hs)]
      simp only [hlater]
      split <;> rfl

theorem prefix_append_mark_iff (hkey : '?' ∉ key) (s b : List Char) :
    key <+: s ++ '?' :: b ↔ key <+: s := by
  induction key generalizing s with
  | nil => simp
  | cons k key ih =>
    cases s with
    | nil =>
      have hk : k ≠ '?' := fun h => hkey (by simp [h])
      simp [hk]
    | cons c s =>
      rw [List.cons_append, List.cons_prefix_cons, List.cons_prefix_cons,
        ih (mt (List.mem_cons_of_mem k) hkey)]

/-- Between two question marks the keyword is found looking back just where it is found looking
ahead, so that the adaptation is a replacement. -/
theorem declareFrom_eq_replaceAll {before : List Char}
    (hbefore : before = [] ∨ ∃ b, before = '?' :: b) (s : List Char) :
    declareFrom before s =
      replaceAll (likeKeyword ++ ['?']) (likeKeyword ++ '?' :: escapeDeclaration) s := by
  have hkey : '?' ∉ likeKeyword := by decide
  -- one step takes the text up to its next question mark
  induction hn : s.length using Nat.strongRecOn generalizing s before with
  | ind n ih =>
    by_cases hmem : '?' ∈ s
    · obtain ⟨a, t, rfl, ha⟩ := List.eq_append_cons_of_mem hmem
      have hlook : likeKeyword.reverse.isPrefixOf (a.reverse ++ before) = true ↔
          likeKeyword <:+ a ∧ [] <+: t := by
        rw [List.isPrefixOf_iff_prefix, ← List.reverse_prefix]
        rcases hbefore with rfl | ⟨b, rfl⟩
        · simp
        · rw [prefix_append_mark_iff (by simpa using hkey)]
          simp
      have hrest : declareFrom ('?' :: (a.reverse ++ before)) t =
          replaceAll (likeKeyword ++ ['?']) (likeKeyword ++ '?' :: escapeDeclaration) t :=
        ih t.length (by simp [← hn]; omega) (.inr ⟨_, rfl⟩) t rfl
      rw [declareFrom_append, declareFrom_of_not_mem ha, replaceAll_append_mark hkey ha,
        declareFrom, hrest]
      simp only [beq_self_eq_true, Bool.true_and, hlook]
      split <;> simp
    · rw [declareFrom_of_not_mem hmem, replaceAll_of_not_mem hmem]

namespace Piece

def markThen (after : List Char) (c : Option Comparison) : List Char :=
  '?' :: if c = some .like then after else []

theorem replaceAll_write (d e : List Char) {ps : List Piece} (hmark : '?' ∉ bare ps)
    {lead : List Char} (hlead : '?' ∉ lead) (h : Placed lead ps) :
    replaceAll (likeKeyword ++ '?' :: d) (likeKeyword ++ '?' :: e)
        (lead ++ write (markThen d) ps) = lead ++ write (markThen e) ps := by
  -- the keyword may go over several pieces, so text is held in `lead` until a mark comes
  induction ps generalizing lead with
  | nil => simpa [write] using replaceAll_of_not_mem hlead d _
  | cons p ps ih =>
    cases p with
    | text s =>
      obtain ⟨hs, hps⟩ := not_or.1 (mt List.mem_append.2 hmark)
      have hleads : '?' ∉ lead ++ s := by simp [hlead, hs]
      have hrest := ih hps hleads h
      rwa [List.append_assoc, List.append_assoc] at hrest
    | mark c =>
      have hkey : '?' ∉ likeKeyword := by decide
      have hrest := ih hmark List.not_mem_nil h.2.2
      rw [List.nil_append, List.nil_append] at hrest
      simp only [write, markThen, List.cons_append]
      rw [replaceAll_append_mark hkey hlead]
      by_cases hc : c = some .like
      · have hfound : likeKeyword <:+ lead := h.1.2 hc
        simp only [if_pos hc]
        rw [if_pos ⟨hfound, List.prefix_append ..⟩, List.drop_left, hrest, List.append_assoc]
        rfl
      · have hother : ¬ likeKeyword <:+ lead := mt h.1.1 hc
        simp only [if_neg hc, List.nil_append]
        rw [if_neg fun hboth => hother hboth.1, hrest]

end Piece

def followedBy (after : List Char) : List Char → List Bool
  | [] => []
  | c :: rest =>
    if c = '?' then after.isPrefixOf rest :: followedBy after rest else followedBy after rest

theorem followedBy_append {s : List Char} (h : '?' ∉ s) (after t : List Char) :
    followedBy after (s ++ t) = followedBy after t := by
  induction s with
  | nil => rfl
  | cons c s ih =>
    obtain ⟨hc, hs⟩ := not_or.1 (mt List.mem_cons.2 h)
    rw [List.cons_append, followedBy, if_neg (Ne.symm hc), ih hs]

namespace Piece

theorem Follows.not_declaration {rest : List Piece} (h : Follows rest)
    (placeholder : Option Comparison → List Char) :
    ¬ escapeDeclaration <+: write placeholder rest := by
  intro hdeclared
  have hstart : [' ', 'E'] <+: escapeDeclaration := by decide
  have htext := hstart.trans hdeclared
  rcases h with rfl | ⟨word, hword, s, ps, rfl⟩
  · exact absurd (List.prefix_nil.1 htext) (by decide)
  · simp only [followers, List.mem_cons, List.not_mem_nil, or_false] at hword
    rcases hword with rfl | rfl | rfl | rfl | rfl <;> simp [write] at htext

theorem followedBy_write {ps : List Piece} (hmark : '?' ∉ bare ps) {lead : List Char}
    (h : Placed lead ps) :
    followedBy escapeDeclaration (write (markThen escapeDeclaration) ps) =
      (marks ps).map (· == some .like) := by
  induction ps generalizing lead with
  | nil => rfl
  | cons p ps ih =>
    cases p with
    | text s =>
      obtain ⟨hs, hps⟩ := not_or.1 (mt List.mem_append.2 hmark)
      rw [write, followedBy_append hs, ih hps h, marks]
    | mark c =>
      have hrest := ih hmark h.2.2
      have hdeclaration : '?' ∉ escapeDeclaration := by decide
      rw [marks, List.map_cons, ← hrest]
      by_cases hc : c = some .like
      · simp [write, markThen, hc, followedBy, followedBy_append hdeclaration]
      · have hnone := h.2.1.not_declaration (markThen escapeDeclaration)
        rw [← List.isPrefixOf_iff_prefix] at hnone
        simp [write, markThen, hc, followedBy, hnone]

theorem plain_eq_write (ps : List Piece) : plain ps = write (markThen []) ps := by
  have hmark : (fun _ => ['?']) = markThen [] := by
    funext c
    simp [markThen]
  rw [plain, hmark]

end Piece

/-- A statement that declares the escape character at the placeholders of `LIKE`, of which there are
`likes`, and is otherwise the plain one, whose layout is given. -/
structure Statement.Declares (declared plain : Statement) (layout : List Piece) (likes : Nat) :
    Prop where
  plain_sql : plain.sql.toList = Piece.plain layout
  sql : declared.sql.toList = Piece.write (Piece.markThen escapeDeclaration) layout
  followed : followedBy escapeDeclaration declared.sql.toList =
    (Piece.marks layout).map (· == some .like)
  count : (followedBy escapeDeclaration declared.sql.toList).count true = likes
  undone : replaceAll (likeKeyword ++ '?' :: escapeDeclaration) (likeKeyword ++ ['?'])
    declared.sql.toList = plain.sql.toList
  values : declared.values = plain.values

theorem Statement.declares_of_layout {layout : List Piece} (hmark : '?' ∉ Piece.bare layout)
    (hplaced : Piece.Placed [] layout) {declared plain : Statement}
    (hdeclared : declared.sql = String.ofList (declareEscapes (Piece.plain layout)))
    (hplain : plain.sql = String.ofList (Piece.plain layout))
    (hvalues : declared.values = plain.values) :
    declared.Declares plain layout ((Piece.marks layout).count (some .like)) := by
  have hwritten : declareEscapes (Piece.plain layout) =
      Piece.write (Piece.markThen escapeDeclaration) layout := by
    rw [declareEscapes, declareFrom_eq_replaceAll (.inl rfl), Piece.plain_eq_write]
    exact Piece.replaceAll_write [] escapeDeclaration hmark List.not_mem_nil hplaced
  have hsql : declared.sql.toList = Piece.write (Piece.markThen escapeDeclaration) layout := by
    rw [hdeclared, String.toList_ofList, hwritten]
  have hfollowed := Piece.followedBy_write hmark hplaced
  refine ⟨?_, hsql, ?_, ?_, ?_, hvalues⟩
  · rw [hplain, String.toList_ofList]
  · rw [hsql, hfollowed]
  · rw [hsql, hfollowed, List.count, List.countP_map]
    congr 1
    funext c
    simp
  · rw [hsql, hplain, String.toList_ofList, Piece.plain_eq_write]
    exact Piece.replaceAll_write escapeDeclaration [] hmark List.not_mem_nil hplaced

end Sql

namespace Resource

/-- The conditions with `LIKE` that a request is answered by. -/
def likeCount (r : Resource) (params : Parameters) : Nat :=
  (if r.isSearched params then r.searchColumns.length else 0) +
    (Filter.conditions r.fields params).value.countP (·.comparison = .like)

theorem count_marks_countLayout (r : Resource) (params : Parameters) :
    (Piece.marks (r.countLayout params)).count (some .like) = r.likeCount params := by
  rw [marks_countLayout, List.count_append, List.count_append, likeCount]
  have hrules :
      ((r.rulesMet params).map fun _ => some Comparison.equal).count (some .like) = 0 := by
    simp [List.count_eq_zero]
  have hfilter : ((Filter.conditions r.fields params).value.map
        fun c => some c.comparison).count (some .like) =
      (Filter.conditions r.fields params).value.countP (·.comparison = .like) := by
    rw [List.count, List.countP_map]
    rfl
  rw [hrules, hfilter, Nat.zero_add]
  cases r.isSearched params <;> simp [List.map_const']

theorem escapes_declared_at_like (r : Resource) (h : r.Avoids '?') (params : Parameters) :
    let selection := (r.resolve params).value
    (r.pageStatement .sqlite selection).Declares (r.pageStatement .mysql selection)
        (r.pageLayout params) (r.likeCount params) ∧
      (r.countStatement .sqlite selection).Declares (r.countStatement .mysql selection)
        (r.countLayout params) (r.likeCount params) := by
  intro selection
  constructor
  · have hcount : (Piece.marks (r.pageLayout params)).count (some .like) = r.likeCount params := by
      rw [marks_pageLayout, List.count_append, count_marks_countLayout]
      rfl
    rw [← hcount]
    exact Statement.declares_of_layout (not_mem_bare_pageLayout (.inl rfl) h params)
      (r.placed_pageLayout params) (r.sql_pageStatement .sqlite params)
      (r.sql_pageStatement .mysql params) rfl
  · rw [← count_marks_countLayout]
    exact Statement.declares_of_layout (not_mem_bare_countLayout (.inl rfl) h params)
      (r.placed_countLayout params) (r.sql_countStatement .sqlite params)
      (r.sql_countStatement .mysql params) rfl

theorem escapes_declared_at_like_templates :
    let params : Parameters :=
      { entries := [("domain_id", "7"), ("search", "5?"), ("filters", "[[\"name\",\"\",\"?\"]]")] }
    let page := templates.pageStatement .sqlite (templates.resolve params).value
    templates.Avoids '?' ∧
      followedBy escapeDeclaration page.sql.toList = [false, true, true, true, false, false] := by
  intro params page
  have hmark : templates.Avoids '?' := templates_avoids (.inl rfl)
  have hmarks : (Piece.marks (templates.pageLayout params)).map (· == some .like) =
      [false, true, true, true, false, false] := by decide +kernel
  refine ⟨hmark, ?_⟩
  rw [← hmarks]
  exact (escapes_declared_at_like templates hmark params).1.followed

end Resource
end Listing
