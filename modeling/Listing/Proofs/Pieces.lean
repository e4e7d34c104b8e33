import Listing.Proofs.Agreement
import Listing.Resource.Samples
import Mathlib.Logic.Relation

set_option autoImplicit false

namespace Listing

namespace Form

def pieces (query : String) : List (List Char) :=
  query.toList.splitOn '&'

def key (piece : List Char) : String :=
  (readPair piece).1

def ofKey (name : String) (ps : List (List Char)) : List (List Char) :=
  ps.filter (key · == name)

/-- One change to the pieces of a query string that makes no difference where only listed names
are read. -/
inductive Edit (listed : List String) : List (List Char) → List (List Char) → Prop
  /-- Each key keeps its pieces in their order. -/
  | rearrange {ps qs : List (List Char)} (h : ∀ name, ofKey name ps = ofKey name qs) :
    Edit listed ps qs
  | empty (before after : List (List Char)) : Edit listed (before ++ after) (before ++ [] :: after)
  | unlisted (before after : List (List Char)) {piece : List Char} (h : key piece ∉ listed) :
    Edit listed (before ++ after) (before ++ piece :: after)
  | overtaken (before after : List (List Char)) {piece later : List Char} (hl : later ∈ after)
    (hne : later ≠ []) (hk : key later = key piece) :
    Edit listed (before ++ after) (before ++ piece :: after)

theorem Edit.swap {listed : List String} (before after : List (List Char)) {p q : List Char}
    (h : key p ≠ key q) : Edit listed (before ++ p :: q :: after) (before ++ q :: p :: after) := by
  refine .rearrange fun name => ?_
  by_cases hp : key p = name
  · have hq : ¬ key q = name := fun hq => h (hp.trans hq.symm)
    simp [ofKey, hp, hq]
  · simp [ofKey, List.filter_cons, hp]

def giving (name : String) (ps : List (List Char)) : List (List Char) :=
  (ofKey name ps).filter (!·.isEmpty)

theorem lookup_eq_find? {α : Type} (name : String) (entries : List (String × α)) :
    entries.lookup name = (entries.find? (·.1 == name)).map (·.2) := by
  induction entries with
  | nil => rfl
  | cons entry entries ih =>
    obtain ⟨other, a⟩ := entry
    by_cases h : name = other
    · simp [h]
    · have hs : (name == other) = false := by simpa using h
      simp [List.lookup_cons, hs, Ne.symm h, ih]

/-- The last piece that gives a text to a name decides. -/
theorem get?_ofQueryString (query name : String) :
    (Parameters.ofQueryString query).get? name =
      ((giving name (pieces query)).getLast?).map fun piece => (readPair piece).2 := by
  unfold Table.get? Parameters.ofQueryString readPairs giving ofKey pieces
  rw [lookup_eq_find?, ← List.head?_filter, List.filter_reverse, List.head?_reverse,
    List.filter_map, List.getLast?_map, Option.map_map, List.filter_filter, List.filter_filter]
  simp only [Function.comp_def, key, Bool.and_comm]

variable {listed : List String} {name : String}

theorem giving_append_cons (before after : List (List Char)) (piece : List Char) :
    giving name (before ++ piece :: after) =
      giving name before ++ (giving name [piece] ++ giving name after) := by
  unfold giving ofKey
  rw [← List.singleton_append, List.filter_append, List.filter_append, List.filter_append,
    List.filter_append]

@[simp] theorem giving_append (before after : List (List Char)) :
    giving name (before ++ after) = giving name before ++ giving name after := by
  unfold giving ofKey
  rw [List.filter_append, List.filter_append]

theorem getLast?_giving_insert (before : List (List Char)) {piece : List Char}
    {after : List (List Char)} (h : giving name [piece] = [] ∨ giving name after ≠ []) :
    (giving name (before ++ piece :: after)).getLast? =
      (giving name (before ++ after)).getLast? := by
  rw [giving_append_cons, giving_append]
  rcases h with h | h
  · rw [h, List.nil_append]
  · rw [List.getLast?_append_of_ne_nil _ (List.append_ne_nil_of_right_ne_nil _ h),
      List.getLast?_append_of_ne_nil _ h, List.getLast?_append_of_ne_nil _ h]

theorem Edit.getLast?_giving {ps qs : List (List Char)} (h : Edit listed ps qs)
    (hn : name ∈ listed) : (giving name ps).getLast? = (giving name qs).getLast? := by
  cases h with
  | rearrange h => rw [giving, giving, h name]
  | empty before after =>
    have hnone : giving name [[]] = [] := by
      rw [giving, List.filter_eq_nil_iff]
      intro piece hp
      obtain rfl := List.mem_singleton.1 (List.mem_of_mem_filter hp)
      simp
    rw [getLast?_giving_insert before (.inl hnone)]
  | unlisted before after h =>
    rename_i piece
    have hnone : giving name [piece] = [] := by
      have hk : ¬ key piece = name := fun hk => h (hk ▸ hn)
      simp [giving, ofKey, hk]
    rw [getLast?_giving_insert before (.inl hnone)]
  | overtaken before after hl hne hk =>
    rename_i piece later
    by_cases hp : key piece = name
    · have hlater : later ∈ giving name after := by
        simp [giving, ofKey, hl, hne, hk, hp]
      rw [getLast?_giving_insert before (.inr (List.ne_nil_of_mem hlater))]
    · have hnone : giving name [piece] = [] := by simp [giving, ofKey, hp]
      rw [getLast?_giving_insert before (.inl hnone)]

theorem getLast?_giving_eqvGen {ps qs : List (List Char)}
    (h : Relation.EqvGen (Edit listed) ps qs) (hn : name ∈ listed) :
    (giving name ps).getLast? = (giving name qs).getLast? := by
  induction h with
  | rel ps qs h => exact h.getLast?_giving hn
  | refl ps => rfl
  | symm ps qs _ ih => exact ih.symm
  | trans ps qs rs _ _ ih ih' => exact ih.trans ih'

end Form

namespace Resource

theorem agreeOn_ofQueryString {listed : List String} {query other : String}
    (h : Relation.EqvGen (Form.Edit listed) (Form.pieces query) (Form.pieces other)) :
    (Parameters.ofQueryString query).AgreeOn (Parameters.ofQueryString other) listed := by
  intro name hn
  rw [Form.get?_ofQueryString, Form.get?_ofQueryString, Form.getLast?_giving_eqvGen h hn]

/-- However many edits lead from one query string to another, forwards or backwards. -/
theorem selection_unchanged_by_edits (r : Resource) (query other : String)
    (h : Relation.EqvGen (Form.Edit r.names) (Form.pieces query) (Form.pieces other)) :
    let selection := r.resolve (Parameters.ofQueryString query)
    let selection' := r.resolve (Parameters.ofQueryString other)
    selection.value = selection'.value ∧ selection.notices = selection'.notices ∧
      ∀ d, r.pageStatement d selection.value = r.pageStatement d selection'.value ∧
        r.countStatement d selection.value = r.countStatement d selection'.value := by
  intro selection selection'
  have hsame : selection = selection' := r.resolve_congr (agreeOn_ofQueryString h)
  rw [hsame]
  exact ⟨rfl, rfl, fun _ => ⟨rfl, rfl⟩⟩

theorem selection_unchanged_by_edits_templates :
    let query := "p%61ge=1&&password=x&domain_id=4&page=2"
    let other := "page=2&domain_id=4"
    Relation.EqvGen (Form.Edit templates.names) (Form.pieces query) (Form.pieces other) ∧
      (templates.resolve (Parameters.ofQueryString query)).value =
        (templates.resolve (Parameters.ofQueryString other)).value := by
  intro query other
  let early := "p%61ge=1".toList
  let unlisted := "password=x".toList
  let domain := "domain_id=4".toList
  let page := "page=2".toList
  have hquery : Form.pieces query = [early, [], unlisted, domain, page] := by decide
  have hother : Form.pieces other = [page, domain] := by decide
  have hempty : Form.Edit templates.names [early, unlisted, domain, page] (Form.pieces query) :=
    hquery ▸ .empty [early] [unlisted, domain, page]
  have hunlisted : Form.Edit templates.names [early, domain, page]
      [early, unlisted, domain, page] :=
    .unlisted [early] [domain, page] (by decide +kernel)
  have hearly : Form.Edit templates.names [domain, page] [early, domain, page] :=
    .overtaken [] [domain, page] (show page ∈ [domain, page] by simp) (by decide)
      (by decide +kernel)
  have hswap : Form.Edit templates.names [domain, page] (Form.pieces other) :=
    hother ▸ .swap [] [] (by decide +kernel)
  have h : Relation.EqvGen (Form.Edit templates.names) (Form.pieces query) (Form.pieces other) :=
    (((Relation.EqvGen.rel _ _ hearly).trans _ _ _ ((Relation.EqvGen.rel _ _ hunlisted).trans _ _ _
      (Relation.EqvGen.rel _ _ hempty))).symm _ _).trans _ _ _ (Relation.EqvGen.rel _ _ hswap)
  exact ⟨h, (selection_unchanged_by_edits templates query other h).1⟩

end Resource
end Listing
