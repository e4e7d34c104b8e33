set_option autoImplicit false

namespace Listing.Sql.Like

def isSpecial (c : Char) : Bool :=
  c == '\\' || c == '%' || c == '_'

@[simp] theorem isSpecial_iff (c : Char) : isSpecial c = true ↔ c = '\\' ∨ c = '%' ∨ c = '_' := by
  simp [isSpecial, or_assoc]

theorem ne_backslash_of_not_isSpecial {c : Char} (h : ¬ isSpecial c = true) : c ≠ '\\' :=
  fun hc => h ((isSpecial_iff c).2 (.inl hc))

def guardAll (c : Char) (s : List Char) : List Char :=
  s.flatMap fun d => if d == c then ['\\', d] else [d]

/-- The backslash comes first, since the other two rounds write backslashes of their own. -/
def escape (s : List Char) : List Char :=
  guardAll '_' (guardAll '%' (guardAll '\\' s))

def containing (s : List Char) : List Char :=
  '%' :: escape s ++ ['%']

def escapeChar (c : Char) : List Char :=
  if isSpecial c then ['\\', c] else [c]

theorem escapeChar_of_isSpecial {c : Char} (h : isSpecial c = true) : escapeChar c = ['\\', c] :=
  if_pos h

theorem escapeChar_of_not_isSpecial {c : Char} (h : ¬ isSpecial c = true) : escapeChar c = [c] :=
  if_neg h

@[simp] theorem escape_append (s t : List Char) : escape (s ++ t) = escape s ++ escape t := by
  simp only [escape, guardAll, List.flatMap_append]

@[simp] theorem escape_singleton (c : Char) : escape [c] = escapeChar c := by
  by_cases hb : c = '\\'
  · subst hb; rfl
  by_cases hp : c = '%'
  · subst hp; rfl
  by_cases hu : c = '_'
  · subst hu; rfl
  simp [escape, guardAll, escapeChar, isSpecial, hb, hp, hu]

@[simp]
theorem escape_cons (c : Char) (s : List Char) : escape (c :: s) = escapeChar c ++ escape s := by
  rw [← List.singleton_append, escape_append, escape_singleton]

theorem escape_eq_flatMap (s : List Char) : escape s = s.flatMap escapeChar := by
  induction s with
  | nil => rfl
  | cons c s ih => rw [escape_cons, ih, List.flatMap_cons]

end Listing.Sql.Like
