import Listing.Filter
import Listing.Search
import Mathlib.Data.List.Forall2
import Mathlib.Data.List.Infix

/-!
What `LIKE` finds. A pattern is read into pieces, and the pieces are laid along a subject; how a
literal character is compared with one of the subject is left open. The pattern of the texts that
contain a term has no piece that the term could have smuggled in, so it finds the term literally.
-/

set_option autoImplicit false

namespace Listing.Sql.Like

inductive Piece
  | any
  | one
  | literal (c : Char)
  deriving DecidableEq, Repr

/-- A backslash at the very end has no character to stand before: such a pattern has no reading. -/
def pieces? : List Char → Option (List Piece)
  | [] => some []
  | '%' :: rest => (pieces? rest).map (.any :: ·)
  | '_' :: rest => (pieces? rest).map (.one :: ·)
  | ['\\'] => none
  | '\\' :: c :: rest => (pieces? rest).map (.literal c :: ·)
  | c :: rest => (pieces? rest).map (.literal c :: ·)

/-- The pieces cover the whole subject. A percent sign may leave any of the subject's ends to the
pieces after it. -/
def Fits (same : Char → Char → Prop) : List Piece → List Char → Prop
  | [], s => s = []
  | .any :: ps, s => ∃ rest ∈ s.tails, Fits same ps rest
  | .one :: _, [] => False
  | .one :: ps, _ :: s => Fits same ps s
  | .literal _ :: _, [] => False
  | .literal p :: ps, c :: s => same p c ∧ Fits same ps s

def Matches (same : Char → Char → Prop) (pattern subject : List Char) : Prop :=
  ∃ ps, pieces? pattern = some ps ∧ Fits same ps subject

instance decidableFits (same : Char → Char → Prop) [DecidableRel same] :
    (ps : List Piece) → (s : List Char) → Decidable (Fits same ps s)
  | [], s => inferInstanceAs (Decidable (s = []))
  | .any :: ps, s =>
    have (rest : List Char) : Decidable (Fits same ps rest) := decidableFits same ps rest
    inferInstanceAs (Decidable (∃ rest ∈ s.tails, Fits same ps rest))
  | .one :: _, [] => .isFalse id
  | .one :: ps, _ :: s => decidableFits same ps s
  | .literal _ :: _, [] => .isFalse id
  | .literal p :: ps, c :: s =>
    have := decidableFits same ps s
    inferInstanceAs (Decidable (same p c ∧ Fits same ps s))

instance decidableMatches (same : Char → Char → Prop) [DecidableRel same]
    (pattern subject : List Char) : Decidable (Matches same pattern subject) :=
  match h : pieces? pattern with
  | none => .isFalse (by simp [Matches, h])
  | some ps => decidable_of_iff (Fits same ps subject) (by simp [Matches, h])

@[simp] theorem pieces?_escapeChar_append (c : Char) (rest : List Char) :
    pieces? (escapeChar c ++ rest) = (pieces? rest).map (.literal c :: ·) := by
  by_cases hb : c = '\\'
  · subst hb; rfl
  by_cases hp : c = '%'
  · subst hp; rfl
  by_cases hu : c = '_'
  · subst hu; rfl
  simp [escapeChar, isSpecial, pieces?, hb, hp, hu]

@[simp] theorem pieces?_escape_append (s rest : List Char) :
    pieces? (escape s ++ rest) = (pieces? rest).map (s.map .literal ++ ·) := by
  rw [escape_eq_flatMap]
  induction s with
  | nil => simp
  | cons c s ih =>
    rw [List.flatMap_cons, List.append_assoc, pieces?_escapeChar_append, ih, Option.map_map]
    rfl

@[simp] theorem pieces?_containing (t : List Char) :
    pieces? (containing t) = some (.any :: t.map .literal ++ [.any]) := by
  have h := pieces?_escape_append t ['%']
  simp only [containing, List.cons_append, pieces?, h]
  simp

theorem fits_literals_append (same : Char → Char → Prop) (t : List Char) (ps : List Piece)
    (s : List Char) :
    Fits same (t.map .literal ++ ps) s ↔
      ∃ block rest, s = block ++ rest ∧ List.Forall₂ same t block ∧ Fits same ps rest := by
  induction t generalizing s with
  | nil => simp
  | cons p t ih =>
    cases s with
    | nil => simp [Fits]
    | cons c s =>
      simp only [List.map_cons, List.cons_append, Fits, ih]
      constructor
      · rintro ⟨hc, block, rest, rfl, hb, hr⟩
        exact ⟨c :: block, rest, rfl, .cons hc hb, hr⟩
      · rintro ⟨block, rest, hs, hb, hr⟩
        cases hb with
        | cons hc hb =>
          obtain ⟨rfl, rfl⟩ := List.cons.inj hs
          exact ⟨hc, _, rest, rfl, hb, hr⟩

theorem fits_any (same : Char → Char → Prop) (s : List Char) : Fits same [.any] s :=
  ⟨[], by simp, rfl⟩

theorem fits_any_literals_any (same : Char → Char → Prop) (t s : List Char) :
    Fits same (.any :: t.map .literal ++ [.any]) s ↔
      ∃ block, block <:+: s ∧ List.Forall₂ same t block := by
  rw [List.cons_append, Fits]
  simp only [fits_literals_append, List.mem_tails]
  constructor
  · rintro ⟨_, ⟨before, rfl⟩, block, after, rfl, hb, -⟩
    exact ⟨block, ⟨before, after, by simp⟩, hb⟩
  · rintro ⟨block, ⟨before, after, rfl⟩, hb⟩
    exact ⟨block ++ after, ⟨before, by simp⟩, block, after, rfl, hb, fits_any same after⟩

@[simp] theorem matches_containing_iff (same : Char → Char → Prop) (t s : List Char) :
    Matches same (containing t) s ↔ ∃ block, block <:+: s ∧ List.Forall₂ same t block := by
  simp only [Matches, pieces?_containing, Option.some.injEq, exists_eq_left',
    fits_any_literals_any]

example : Matches (· = ·) "a%_\\%".toList "abcx%".toList := by decide

example : ¬ Matches (· = ·) (containing "5%".toList) "500".toList := by decide

theorem values_search_clause (columns : List String) {term : String} (h : term ≠ "") :
    (Search.clause columns (some term)).values =
      columns.map fun _ => .text (String.ofList (containing term.toList)) := by
  cases columns with
  | nil => rw [Search.clause_of_eq (.inl rfl)]; rfl
  | cons column columns => rw [Search.clause_of_ne (List.cons_ne_nil column columns) h]; rfl

theorem clauses_condition_like {fields : FieldTable} {element : Json.Value} {d : Descriptor}
    {v : Value} {f : Field} (hd : Descriptor.ofJson? element = some d)
    (hv : d.usable? = some v) (hf : fields.get? d.field = some f)
    (hc : d.comparisonOn f = .like) :
    (Filter.condition fields element).value.map Condition.clause =
      [{ text := String.ofList (f.column.toList ++ " LIKE ?".toList)
         values := [.text (String.ofList (containing v.chars))] }] := by
  simp only [Filter.condition, hd, hv, hf, hc, Traced.value_pure, List.map_cons, List.map_nil]
  simp [Condition.clause, Condition.text, Condition.bound, Comparison.sql]

/-- A bound pattern finds its term and nothing else: it asks for any text, the characters of the
term one by one, and any text. Searches and `LIKE` filters bind no other patterns. -/
theorem patterns_match_literally :
    (∀ (same : Char → Char → Prop) (t s : List Char),
      Matches same (containing t) s ↔ ∃ block, block <:+: s ∧ List.Forall₂ same t block) ∧
    (∀ t : List Char, pieces? (containing t) = some (.any :: t.map .literal ++ [.any])) ∧
    (∀ (columns : List String) (term : String), term ≠ "" →
      (Search.clause columns (some term)).values =
        columns.map fun _ => .text (String.ofList (containing term.toList))) ∧
    (∀ (fields : FieldTable) (element : Json.Value) (d : Descriptor) (v : Value) (f : Field),
      Descriptor.ofJson? element = some d → d.usable? = some v →
      fields.get? d.field = some f → d.comparisonOn f = .like →
      (Filter.condition fields element).value.map Condition.clause =
        [{ text := String.ofList (f.column.toList ++ " LIKE ?".toList)
           values := [.text (String.ofList (containing v.chars))] }]) := by
  refine ⟨matches_containing_iff, pieces?_containing, ?_, ?_⟩
  · intro columns term h
    exact values_search_clause columns h
  · intro fields element d v f hd hv hf hc
    exact clauses_condition_like hd hv hf hc

theorem patterns_match_percent_and_backslash :
    Matches (· = ·) (containing "5%\\".toList) "up 5%\\ now".toList ∧
    (Search.clause ["p.name", "p.email"] (some "5%")).values =
      [.text "%5\\%%", .text "%5\\%%"] ∧
    (Filter.condition { entries := [("name", { column := "p.name", comparison := some .like })] }
        (.object [("field", .string "name"), ("value", .string "_\\")])).value.map
          Condition.clause =
      [{ text := "p.name LIKE ?", values := [.text "%\\_\\\\%"] }] := by
  refine ⟨?_, ?_, ?_⟩
  · exact (patterns_match_literally.1 _ _ _).2
      ⟨"5%\\".toList, ⟨"up ".toList, " now".toList, by decide⟩, by decide⟩
  · exact patterns_match_literally.2.2.1 ["p.name", "p.email"] "5%" (by decide)
  · exact patterns_match_literally.2.2.2 _ _
      { field := "name", operator := .null, value := .string "_\\" } (.text "_\\")
      { column := "p.name", comparison := some .like } rfl rfl rfl rfl

end Listing.Sql.Like
