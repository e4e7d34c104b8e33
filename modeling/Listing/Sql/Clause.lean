import Listing.Sql.Value

/-!
Conditions on rows as SQL. A clause is a piece of SQL and the values for its question marks, in
order. A restriction is the conjunction of clauses, kept as two lists, one of texts and one of
values; both grow together, and a clause without text leaves both as they are.
-/

set_option autoImplicit false

namespace Listing.Sql

structure Clause where
  text : String
  values : List Value
  deriving DecidableEq

def Clause.empty : Clause :=
  { text := "", values := [] }

def Clause.isEmpty (c : Clause) : Bool :=
  c.text.isEmpty

structure ClauseLists where
  texts : List String := []
  values : List Value := []
  deriving DecidableEq

def ClauseLists.clauses (lists : ClauseLists) : List Clause :=
  (lists.texts.zip lists.values).map fun p => { text := p.1, values := [p.2] }

structure Restriction where
  texts : List String := []
  values : List Value := []
  deriving DecidableEq

theorem intercalate_cons_eq_flatMap {α β : Type} (sep text : List β) (f : α → List β)
    (as : List α) :
    sep.intercalate (text :: as.map f) = text ++ as.flatMap fun a => sep ++ f a := by
  induction as generalizing text with
  | nil => simp
  | cons a as ih => simp [List.intercalate_cons_cons, ih]

namespace Restriction

def push (r : Restriction) (c : Clause) : Restriction :=
  if c.isEmpty then r
  else { texts := r.texts ++ [c.text], values := r.values ++ c.values }

def pushAll (r : Restriction) (cs : List Clause) : Restriction :=
  cs.foldl push r

def isEmpty (r : Restriction) : Bool :=
  r.texts.isEmpty

/-- Texts as one condition: nothing for no text, so that it can follow any statement. -/
def conjunction (texts : List (List Char)) : List Char :=
  if texts.isEmpty then [] else " WHERE ".toList ++ " AND ".toList.intercalate texts

def render (r : Restriction) : List Char :=
  conjunction (r.texts.map String.toList)

def taken (cs : List Clause) : List Clause :=
  cs.filter (!·.isEmpty)

@[simp]
theorem push_of_isEmpty (r : Restriction) {c : Clause} (h : c.isEmpty = true) : r.push c = r :=
  if_pos h

theorem pushAll_eq (r : Restriction) (cs : List Clause) :
    r.pushAll cs =
      { texts := r.texts ++ (taken cs).map Clause.text
        values := r.values ++ (taken cs).flatMap Clause.values } := by
  induction cs generalizing r with
  | nil => simp [pushAll, taken]
  | cons c cs ih =>
    have step : r.pushAll (c :: cs) = (r.push c).pushAll cs := rfl
    rw [step, ih]
    cases hc : c.isEmpty with
    | true => simp [push, taken, hc]
    | false => simp [push, taken, hc]

theorem pushAll_append (r : Restriction) (cs ds : List Clause) :
    r.pushAll (cs ++ ds) = (r.pushAll cs).pushAll ds :=
  List.foldl_append

@[simp] theorem taken_append (cs ds : List Clause) : taken (cs ++ ds) = taken cs ++ taken ds :=
  List.filter_append ..

theorem taken_eq_self {cs : List Clause} (h : ∀ c ∈ cs, c.isEmpty = false) : taken cs = cs :=
  List.filter_eq_self.2 fun c hc => by simp [h c hc]

@[simp] theorem conjunction_eq_nil_iff (texts : List (List Char)) :
    conjunction texts = [] ↔ texts = [] := by
  cases texts with
  | nil => simp [conjunction]
  | cons text rest => simp [conjunction]

@[simp] theorem render_eq_nil_iff (r : Restriction) : r.render = [] ↔ r.isEmpty = true := by
  simp [render, isEmpty]

end Restriction
end Listing.Sql
