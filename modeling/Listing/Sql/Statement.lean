import Listing.Numeric.Digits
import Listing.Sql.Clause

/-!
Statements for three dialects of SQL. They are composed with question marks as placeholders and
then adapted as a whole: PostgreSQL numbers its placeholders, and SQLite, which has no escape
character of its own for `LIKE`, is told which one the patterns use.
-/

set_option autoImplicit false

namespace Listing.Sql

inductive Dialect
  | sqlite
  | mysql
  | postgres
  deriving DecidableEq, Repr

structure Statement where
  sql : String
  values : List Value
  deriving DecidableEq

/-- Placeholders become `$1`, `$2`, …, after the `count` ones before. -/
def numberFrom (count : Nat) : List Char → List Char
  | [] => []
  | c :: rest =>
    if c == '?' then '$' :: Numeric.decimalDigits (count + 1) ++ numberFrom (count + 1) rest
    else c :: numberFrom count rest

def numberPlaceholders (sql : List Char) : List Char :=
  numberFrom 0 sql

def likeKeyword : List Char :=
  "LIKE ".toList

def escapeDeclaration : List Char :=
  " ESCAPE '\\'".toList

/-- A placeholder directly after `LIKE` and a space is followed by the declaration; `before`
holds the characters passed so far, the last one first. -/
def declareFrom (before : List Char) : List Char → List Char
  | [] => []
  | c :: rest =>
    if c == '?' && likeKeyword.reverse.isPrefixOf before then
      c :: escapeDeclaration ++ declareFrom (c :: before) rest
    else c :: declareFrom (c :: before) rest

def declareEscapes (sql : List Char) : List Char :=
  declareFrom [] sql

@[simp] theorem numberFrom_append (count : Nat) (s t : List Char) :
    numberFrom count (s ++ t) = numberFrom count s ++ numberFrom (count + s.count '?') t := by
  induction s generalizing count with
  | nil => rfl
  | cons c s ih =>
    by_cases h : c = '?'
    · simp [numberFrom, h, ih, Nat.add_comm, Nat.add_left_comm]
    · simp [numberFrom, h, ih]

@[simp] theorem declareFrom_append (before s t : List Char) :
    declareFrom before (s ++ t) =
      declareFrom before s ++ declareFrom (s.reverse ++ before) t := by
  induction s generalizing before with
  | nil => rfl
  | cons c s ih =>
    simp only [List.cons_append, declareFrom, ih, List.reverse_cons, List.append_assoc]
    split <;> simp

theorem numberFrom_of_not_mem {s : List Char} (h : '?' ∉ s) (count : Nat) :
    numberFrom count s = s := by
  induction s with
  | nil => rfl
  | cons c s ih =>
    obtain ⟨hc, hs⟩ := not_or.1 (mt List.mem_cons.2 h)
    simp [numberFrom, Ne.symm hc, ih hs]

theorem declareFrom_of_not_mem {s : List Char} (h : '?' ∉ s) (before : List Char) :
    declareFrom before s = s := by
  induction s generalizing before with
  | nil => rfl
  | cons c s ih =>
    obtain ⟨hc, hs⟩ := not_or.1 (mt List.mem_cons.2 h)
    simp [declareFrom, Ne.symm hc, ih hs]

def Dialect.adapt : Dialect → List Char → List Char
  | .sqlite => declareEscapes
  | .mysql => id
  | .postgres => numberPlaceholders

namespace Statement

def page (d : Dialect) (select : String) (r : Restriction) (orderBy : String)
    (limit offset : UInt64) : Statement :=
  let sql := select.toList ++ r.render ++ " ORDER BY ".toList ++ orderBy.toList ++
    " LIMIT ? OFFSET ?".toList
  { sql := String.ofList (d.adapt sql)
    values := r.values ++ [.ofCount limit, .ofCount offset] }

def count (d : Dialect) (count : String) (r : Restriction) : Statement :=
  { sql := String.ofList (d.adapt (count.toList ++ r.render))
    values := r.values }

end Statement
end Listing.Sql
