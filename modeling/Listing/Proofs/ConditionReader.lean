import Listing.Filter
import Listing.Text.Blank

/-!
Conditions of SQL read back from their text. Blanks, parentheses and question marks end a word; a
word is a column unless the language reserves it. `AND` binds tighter than `OR`, parentheses group,
and each question mark takes the next value.
-/

set_option autoImplicit false

namespace Listing.Sql

inductive Token
  | column (name : String)
  | operator (c : Comparison)
  | whereWord
  | andWord
  | orWord
  | opening
  | closing
  | mark
  deriving DecidableEq, Repr

def reserved : List (String × Token) :=
  [ ("WHERE", .whereWord), ("AND", .andWord), ("OR", .orWord), ("LIKE", .operator .like),
    ("=", .operator .equal), (">=", .operator .atLeast), ("<=", .operator .atMost) ]

def reserved? (word : List Char) : Option Token :=
  reserved.lookup (String.ofList (word.map Char.toUpper))

def symbol? (c : Char) : Option Token :=
  if c = '(' then some .opening
  else if c = ')' then some .closing
  else if c = '?' then some .mark
  else none

def wordTokens (word : List Char) : List Token :=
  if word = [] then [] else [(reserved? word).getD (.column (String.ofList word))]

def tokensFrom (word : List Char) : List Char → List Token
  | [] => wordTokens word
  | c :: rest =>
    if Text.isBlank c then wordTokens word ++ tokensFrom [] rest
    else
      match symbol? c with
      | some token => wordTokens word ++ token :: tokensFrom [] rest
      | none => tokensFrom (word ++ [c]) rest

def tokens (text : List Char) : List Token :=
  tokensFrom [] text

inductive Predicate
  | always
  | compare (column : String) (c : Comparison) (v : Value)
  | both (p q : Predicate)
  | either (p q : Predicate)
  deriving DecidableEq

namespace Predicate

def values : Predicate → List Value
  | always => []
  | compare _ _ v => [v]
  | both p q => p.values ++ q.values
  | either p q => p.values ++ q.values

theorem values_foldl {op : Predicate → Predicate → Predicate}
    (hop : ∀ p q, (op p q).values = p.values ++ q.values) (p : Predicate) (ps : List Predicate) :
    (ps.foldl op p).values = (p :: ps).flatMap values := by
  induction ps generalizing p with
  | nil => simp
  | cons q ps ih => simp [ih, hop]

def joined (op : Predicate → Predicate → Predicate) (before : Option Predicate)
    (p : Predicate) : Predicate :=
  before.elim p fun q => op q p

end Predicate

/-- What has been read of a condition or of an open parenthesis when an operand is due: the
alternatives that `OR` has closed, and the chain of `AND` that the operand continues. -/
structure Frame where
  alternatives : Option Predicate := none
  factors : Option Predicate := none

mutual

def readOperand (outer : List Frame) (f : Frame) : List Token → List Value → Option Predicate
  | .opening :: ts, vs => readOperand (f :: outer) {} ts vs
  | .column name :: .operator c :: .mark :: ts, v :: vs =>
    readOperator outer f.alternatives (.joined .both f.factors (.compare name c v)) ts vs
  | _, _ => none

def readOperator (outer : List Frame) (alternatives : Option Predicate) (chain : Predicate) :
    List Token → List Value → Option Predicate
  | .andWord :: ts, vs => readOperand outer { alternatives, factors := some chain } ts vs
  | .orWord :: ts, vs =>
    readOperand outer { alternatives := some (.joined .either alternatives chain) } ts vs
  | .closing :: ts, vs =>
    match outer with
    | [] => none
    | f :: outer =>
      let group := Predicate.joined .either alternatives chain
      readOperator outer f.alternatives (.joined .both f.factors group) ts vs
  | [], [] =>
    match outer with
    | [] => some (.joined .either alternatives chain)
    | _ => none
  | _, _ => none

end

/-- The condition of a statement; a text of blanks only restricts nothing. -/
def readWhere? (text : List Char) (values : List Value) : Option Predicate :=
  match tokens text, values with
  | [], [] => some .always
  | .whereWord :: ts, vs => readOperand [] {} ts vs
  | _, _ => none

inductive Rank
  | operand
  | chain
  | alternatives

inductive Written : Rank → Predicate → List Token → Prop
  | compare (name : String) (c : Comparison) (v : Value) :
    Written .operand (.compare name c v) [.column name, .operator c, .mark]
  | group {p : Predicate} {ts : List Token} (h : Written .alternatives p ts) :
    Written .operand p (.opening :: ts ++ [.closing])
  | factor {p : Predicate} {ts : List Token} (h : Written .operand p ts) : Written .chain p ts
  | both {p q : Predicate} {ts us : List Token} (h : Written .chain p ts)
    (k : Written .operand q us) : Written .chain (.both p q) (ts ++ .andWord :: us)
  | alternative {p : Predicate} {ts : List Token} (h : Written .chain p ts) :
    Written .alternatives p ts
  | either {p q : Predicate} {ts us : List Token} (h : Written .alternatives p ts)
    (k : Written .chain q us) : Written .alternatives (.either p q) (ts ++ .orWord :: us)

/-- What the reader does where a text of each rank begins. A chain begins a frame or follows `OR`,
and alternatives begin a frame. -/
def Rank.ReadBack (p : Predicate) (ts : List Token) : Rank → Prop
  | .operand => ∀ outer f rest vs, readOperand outer f (ts ++ rest) (p.values ++ vs) =
      readOperator outer f.alternatives (.joined .both f.factors p) rest vs
  | .chain => ∀ outer alternatives rest vs,
      readOperand outer { alternatives } (ts ++ rest) (p.values ++ vs) =
        readOperator outer alternatives p rest vs
  | .alternatives => ∃ before chain, Predicate.joined .either before chain = p ∧
      ∀ outer rest vs, readOperand outer {} (ts ++ rest) (p.values ++ vs) =
        readOperator outer before chain rest vs

theorem Written.readBack {rank : Rank} {p : Predicate} {ts : List Token} (h : Written rank p ts) :
    rank.ReadBack p ts := by
  -- the two texts around a joining word are read one after the other, with what the first left in
  -- the frame of the second
  induction h with
  | compare name c v =>
    intro outer f rest vs
    rfl
  | @group p ts h ih =>
    intro outer f rest vs
    obtain ⟨before, chain, rfl, hread⟩ := ih
    have hinner := hread (f :: outer) (.closing :: rest) vs
    simp only [List.cons_append, List.append_assoc, List.nil_append, readOperand, hinner,
      readOperator]
  | factor h ih =>
    intro outer alternatives rest vs
    exact ih outer { alternatives } rest vs
  | @both p q ts us h k ih jh =>
    intro outer alternatives rest vs
    have hp := ih outer alternatives (.andWord :: us ++ rest) (q.values ++ vs)
    have hq := jh outer { alternatives, factors := some p } rest vs
    simp only [Predicate.values, List.append_assoc, List.cons_append, readOperator] at hp ⊢
    rw [hp, hq]
    rfl
  | @alternative p ts h ih =>
    exact ⟨none, p, rfl, fun outer rest vs => ih outer none rest vs⟩
  | @either p q ts us h k ih jh =>
    obtain ⟨before, chain, rfl, hread⟩ := ih
    refine ⟨some (.joined .either before chain), q, rfl, ?_⟩
    intro outer rest vs
    have hp := hread outer (.orWord :: us ++ rest) (q.values ++ vs)
    have hq := jh outer (some (.joined .either before chain)) rest vs
    simp only [Predicate.values, List.append_assoc, List.cons_append, readOperator] at hp ⊢
    rw [hp, hq]

theorem Written.readOperand_eq {p : Predicate} {ts : List Token}
    (h : Written .alternatives p ts) : readOperand [] {} ts p.values = some p := by
  obtain ⟨before, chain, hp, hread⟩ := h.readBack
  have hall := hread [] [] []
  simp only [List.append_nil] at hall
  rw [hall, readOperator, hp]

example :
    readWhere? " WHERE a = ? or b LIKE ? AND (c >= ? OR d <= ?)".toList
      [.integer 1, .text "x", .integer 2, .integer 3] =
        some (.either (.compare "a" .equal (.integer 1)) (.both (.compare "b" .like (.text "x"))
          (.either (.compare "c" .atLeast (.integer 2)) (.compare "d" .atMost (.integer 3))))) := by
  decide

def isPlain (c : Char) : Bool :=
  !Text.isBlank c && (symbol? c).isNone

/-- A name that stands for a column wherever it occurs as a word of its own. -/
def isColumn (name : String) : Bool :=
  !name.isEmpty && name.toList.all isPlain && (reserved? name.toList).isNone

theorem tokensFrom_plain_append (word : List Char) {w : List Char} (h : w.all isPlain = true)
    (rest : List Char) : tokensFrom word (w ++ rest) = tokensFrom (word ++ w) rest := by
  induction w generalizing word with
  | nil => simp
  | cons c w ih =>
    simp only [List.all_cons, Bool.and_eq_true, isPlain, Bool.not_eq_true',
      Option.isNone_iff_eq_none] at h
    obtain ⟨⟨hb, hs⟩, hw⟩ := h
    have hrest := ih (word ++ [c]) hw
    rw [List.cons_append, tokensFrom, hb, hs]
    simpa using hrest

theorem tokensFrom_append_cons (word s : List Char) {c : Char} (h : isPlain c = false)
    (t : List Char) : tokensFrom word (s ++ c :: t) = tokensFrom word s ++ tokens (c :: t) := by
  induction s generalizing word with
  | nil =>
    rw [List.nil_append, tokens, tokensFrom, tokensFrom, tokensFrom]
    cases hb : Text.isBlank c with
    | true => rfl
    | false =>
      cases hs : symbol? c with
      | some token => rfl
      | none => simp [isPlain, hb, hs] at h
  | cons d s ih =>
    rw [List.cons_append, tokensFrom, tokensFrom, ih, ih]
    split
    · rw [List.append_assoc]
    · split
      · rw [List.append_assoc, List.cons_append]
      · rfl

@[simp]
theorem tokens_append_blank (s t : List Char) : tokens (s ++ ' ' :: t) = tokens s ++ tokens t :=
  tokensFrom_append_cons [] s rfl t

@[simp] theorem tokens_append_closing (s : List Char) :
    tokens (s ++ [')']) = tokens s ++ [.closing] :=
  tokensFrom_append_cons [] s rfl []

@[simp] theorem tokens_opening_cons (s : List Char) : tokens ('(' :: s) = .opening :: tokens s :=
  rfl

theorem tokens_column {name : String} (h : isColumn name = true) :
    tokens name.toList = [.column name] := by
  simp only [isColumn, Bool.and_eq_true, Bool.not_eq_true', Option.isNone_iff_eq_none] at h
  obtain ⟨⟨hne, hp⟩, hr⟩ := h
  have hnil : name.toList ≠ [] := by simpa using hne
  have hw := tokensFrom_plain_append [] hp []
  rw [List.append_nil, List.nil_append] at hw
  rw [tokens, hw, tokensFrom, wordTokens, if_neg hnil, hr]
  simp

@[simp] theorem tokens_operator (c : Comparison) : tokens c.sql.toList = [.operator c] := by
  cases c <;> decide

theorem tokens_comparison {name : String} (h : isColumn name = true) (c : Comparison) :
    tokens (name.toList ++ ' ' :: c.sql.toList ++ " ?".toList) =
      [.column name, .operator c, .mark] := by
  have hm : tokens ['?'] = [.mark] := by decide
  rw [List.append_assoc, List.cons_append, tokens_append_blank, tokens_column h]
  have hs : c.sql.toList ++ " ?".toList = c.sql.toList ++ ' ' :: ['?'] := by simp
  rw [hs, tokens_append_blank, tokens_operator, hm]
  rfl

theorem tokens_intercalate {joint : List Char} {token : Token} (h : tokens joint = [token])
    (texts : List (List Char)) :
    tokens ((' ' :: joint ++ [' ']).intercalate texts) =
      [token].intercalate (texts.map tokens) := by
  induction texts with
  | nil => rfl
  | cons text texts ih =>
    cases texts with
    | nil => simp
    | cons other texts =>
      have hjoint (rest : List Char) : text ++ (' ' :: joint ++ [' ']) ++ rest =
          text ++ ' ' :: (joint ++ ' ' :: rest) := by
        simp
      rw [List.intercalate_cons_cons, hjoint, tokens_append_blank, tokens_append_blank, h, ih]
      simp

theorem tokens_conjunction {texts : List (List Char)} (h : texts ≠ []) :
    tokens (Restriction.conjunction texts) =
      .whereWord :: [.andWord].intercalate (texts.map tokens) := by
  have hw : " WHERE ".toList = " WHERE".toList ++ [' '] := by decide
  have ht : tokens " WHERE".toList = [.whereWord] := by decide
  have ha : " AND ".toList = ' ' :: "AND".toList ++ [' '] := by decide
  have hand : tokens "AND".toList = [.andWord] := by decide
  unfold Restriction.conjunction
  rw [if_neg (by simpa using h), hw, ha, List.append_assoc, List.singleton_append,
    tokens_append_blank, ht, tokens_intercalate hand, List.singleton_append]

theorem Written.foldl {rank part : Rank} {joint : Token}
    {op : Predicate → Predicate → Predicate}
    (hop : ∀ {p q ts us}, Written rank p ts → Written part q us →
      Written rank (op p q) (ts ++ joint :: us))
    {p : Predicate} {ts : List Token} (h : Written rank p ts)
    {rest : List (Predicate × List Token)} (hrest : ∀ other ∈ rest, Written part other.1 other.2) :
    Written rank ((rest.map Prod.fst).foldl op p)
      ([joint].intercalate (ts :: rest.map Prod.snd)) := by
  rw [intercalate_cons_eq_flatMap]
  induction rest generalizing p ts with
  | nil => simpa using h
  | cons other rest ih =>
    have hnext := ih (hop h (hrest other (by simp))) fun o ho => hrest o (by simp [ho])
    simpa using hnext

end Listing.Sql
