import Listing.Proofs.EscapeDeclaration
import Mathlib.Algebra.Ring.Parity
import Mathlib.Data.List.DropRight

set_option autoImplicit false

namespace Listing.Sql.Like

theorem guardAll_eq_replaceAll (c : Char) (s : List Char) :
    guardAll c s = replaceAll [c] ['\\', c] s := by
  induction s with
  | nil => rw [replaceAll]; rfl
  | cons d s ih =>
    have hcons : guardAll c (d :: s) = (if d == c then ['\\', d] else [d]) ++ guardAll c s := rfl
    rw [hcons, ih]
    by_cases h : d = c
    · subst h
      have hfound := replaceAll_of_prefix (List.cons_ne_nil d []) ['\\', d] s
      simpa using hfound.symm
    · have hnone : ¬ [c] <+: d :: s := by simpa [List.cons_prefix_cons] using Ne.symm h
      rw [replaceAll_cons hnone]
      simp [h]

theorem escape_eq_replaceAll (s : List Char) :
    escape s =
      replaceAll ['_'] ['\\', '_']
        (replaceAll ['%'] ['\\', '%'] (replaceAll ['\\'] ['\\', '\\'] s)) := by
  simp only [escape, guardAll_eq_replaceAll]

/-- Drops each backslash that stands before a character and keeps that character, whatever it is.
A backslash at the very end stands before nothing and stays. -/
def unescape : List Char → List Char
  | [] => []
  | '\\' :: c :: rest => c :: unescape rest
  | c :: rest => c :: unescape rest

theorem unescape_cons {c : Char} (h : c ≠ '\\') (rest : List Char) :
    unescape (c :: rest) = c :: unescape rest := by
  rw [unescape]
  intro _ _ hc
  exact absurd hc h

@[simp] theorem unescape_escapeChar_append (c : Char) (rest : List Char) :
    unescape (escapeChar c ++ rest) = c :: unescape rest := by
  by_cases h : isSpecial c = true
  · rw [escapeChar_of_isSpecial h]
    rfl
  · rw [escapeChar_of_not_isSpecial h]
    exact unescape_cons (ne_backslash_of_not_isSpecial h) rest

@[simp] theorem unescape_escape_append (s rest : List Char) :
    unescape (escape s ++ rest) = s ++ unescape rest := by
  induction s with
  | nil => rfl
  | cons c s ih =>
    rw [escape_cons, List.append_assoc, unescape_escapeChar_append, ih, List.cons_append]

@[simp] theorem unescape_escape (s : List Char) : unescape (escape s) = s := by
  have h := unescape_escape_append s []
  rwa [List.append_nil, unescape, List.append_nil] at h

theorem escape_injective : Function.Injective escape :=
  Function.LeftInverse.injective unescape_escape

def backslashesAtEnd (s : List Char) : Nat :=
  (s.rtakeWhile (· == '\\')).length

theorem backslashesAtEnd_append (s t : List Char) :
    backslashesAtEnd (s ++ t) =
      if backslashesAtEnd t = t.length then t.length + backslashesAtEnd s
      else backslashesAtEnd t := by
  simp only [backslashesAtEnd, List.rtakeWhile, List.reverse_append, List.takeWhile_append,
    List.length_reverse]
  split <;> simp

theorem odd_backslashesAtEnd_append {s : List Char} (h : Even (backslashesAtEnd s))
    (t : List Char) : Odd (backslashesAtEnd (s ++ t)) ↔ Odd (backslashesAtEnd t) := by
  rw [backslashesAtEnd_append]
  split
  case isTrue hall => rw [← hall, Nat.odd_add]; simp [h]
  case isFalse => rfl

theorem even_backslashesAtEnd_append {s : List Char} (h : Even (backslashesAtEnd s))
    (t : List Char) : Even (backslashesAtEnd (s ++ t)) ↔ Even (backslashesAtEnd t) := by
  rw [← Nat.not_odd_iff_even, ← Nat.not_odd_iff_even, odd_backslashesAtEnd_append h]

/-- An odd number of backslashes comes right before each percent sign and underscore, an even one
right before every other character that is no backslash, and an even one at the end. -/
structure Guarded (t : List Char) : Prop where
  odd_iff : ∀ before c after, t = before ++ c :: after → c ≠ '\\' →
    (Odd (backslashesAtEnd before) ↔ c = '%' ∨ c = '_')
  ending : Even (backslashesAtEnd t)

theorem guarded_nil : Guarded [] where
  odd_iff _ _ _ h := absurd h (by simp)
  ending := Even.zero

theorem guarded_escapeChar (c : Char) : Guarded (escapeChar c) where
  odd_iff := by
    intro before d after hsplit hd
    by_cases h : isSpecial c = true
    · rw [escapeChar_of_isSpecial h] at hsplit
      obtain ⟨rfl, rfl, -⟩ : before = ['\\'] ∧ d = c ∧ after = [] := by
        simpa [List.cons_eq_append_iff, hd, and_assoc] using hsplit
      have hwild : d = '%' ∨ d = '_' := ((isSpecial_iff d).1 h).resolve_left hd
      exact iff_of_true (by decide) hwild
    · rw [escapeChar_of_not_isSpecial h] at hsplit
      obtain ⟨rfl, rfl, -⟩ : before = [] ∧ d = c ∧ after = [] := by
        simpa [List.cons_eq_append_iff] using hsplit
      have hplain : ¬ (d = '%' ∨ d = '_') := fun hwild => h ((isSpecial_iff d).2 (.inr hwild))
      exact iff_of_false (by decide) hplain
  ending := by
    by_cases h : isSpecial c = true
    · rcases (isSpecial_iff c).1 h with rfl | rfl | rfl <;> decide
    · rw [escapeChar_of_not_isSpecial h]
      simp [backslashesAtEnd, List.rtakeWhile, ne_backslash_of_not_isSpecial h]

theorem Guarded.append {s t : List Char} (hs : Guarded s) (ht : Guarded t) : Guarded (s ++ t) where
  odd_iff := by
    intro before c after hsplit hc
    obtain ⟨start, rfl, rfl⟩ | ⟨start, rfl, hstart⟩ := List.append_eq_append_iff.1 hsplit
    · rw [odd_backslashesAtEnd_append hs.ending]
      exact ht.odd_iff start c after rfl hc
    · cases start with
      | nil =>
        -- the character is the first of `t`
        have hfirst := ht.odd_iff [] c after hstart.symm hc
        rwa [← odd_backslashesAtEnd_append hs.ending, List.append_nil, List.append_nil] at hfirst
      | cons d start =>
        obtain ⟨rfl, -⟩ := List.cons.inj hstart
        exact hs.odd_iff before c start rfl hc
  ending := (even_backslashesAtEnd_append hs.ending t).2 ht.ending

theorem Guarded.of_append {s t : List Char} (hs : Guarded s) (h : Guarded (s ++ t)) :
    Guarded t where
  odd_iff := by
    intro before c after hsplit hc
    rw [← odd_backslashesAtEnd_append hs.ending]
    exact h.odd_iff (s ++ before) c after (by rw [hsplit, List.append_assoc]) hc
  ending := (even_backslashesAtEnd_append hs.ending t).1 h.ending

theorem guarded_escape (s : List Char) : Guarded (escape s) := by
  induction s with
  | nil => exact guarded_nil
  | cons c s ih =>
    rw [escape_cons]
    exact (guarded_escapeChar c).append ih

theorem Guarded.escape_unescape {t : List Char} (h : Guarded t) : escape (unescape t) = t := by
  fun_induction unescape t with
  | case1 => rfl
  | case2 c rest ih =>
    -- a backslash at the start is alone before a plain character, and one is an odd number
    have hc : isSpecial c = true := by
      by_contra hplain
      have hne := ne_backslash_of_not_isSpecial hplain
      have hwild := (h.odd_iff ['\\'] c rest rfl hne).1 (by decide)
      exact hplain ((isSpecial_iff c).2 (.inr hwild))
    have hpair := escapeChar_of_isSpecial hc
    have hrest : Guarded rest := (guarded_escapeChar c).of_append (by rwa [hpair])
    rw [escape_cons, ih hrest, hpair]
    rfl
  | case3 c rest hsplit ih =>
    have hne : c ≠ '\\' := by
      intro hc
      subst hc
      cases rest with
      | nil => exact absurd h.ending (by decide)
      | cons d rest => exact hsplit d rest rfl rfl
    have hc : ¬ isSpecial c = true := by
      intro hspecial
      have hwild := ((isSpecial_iff c).1 hspecial).resolve_left hne
      exact absurd ((h.odd_iff [] c rest rfl hne).2 hwild) (by decide)
    have hsingle := escapeChar_of_not_isSpecial hc
    have hrest : Guarded rest := (guarded_escapeChar c).of_append (by rwa [hsingle])
    rw [escape_cons, ih hrest, hsingle]
    rfl

theorem guarded_iff (t : List Char) : Guarded t ↔ ∃ s, escape s = t := by
  constructor
  · intro h
    exact ⟨unescape t, h.escape_unescape⟩
  · intro h
    obtain ⟨s, rfl⟩ := h
    exact guarded_escape s

/-- Escaping is one pass over the text, in which each character is dealt with by itself. Its result
can be undone, and the results are just the texts whose backslashes pair up as they should: an odd
number of them comes right before each percent sign and underscore. -/
theorem escaping_is_one_pass_that_can_be_undone :
    (∀ s, escape s =
      replaceAll ['_'] ['\\', '_']
        (replaceAll ['%'] ['\\', '%'] (replaceAll ['\\'] ['\\', '\\'] s))) ∧
    (∀ s, escape s = s.flatMap escapeChar) ∧
    (∀ s t, escape (s ++ t) = escape s ++ escape t) ∧
    (∀ s, unescape (escape s) = s) ∧
    Function.Injective escape ∧
    (∀ s before c after, escape s = before ++ c :: after → c = '%' ∨ c = '_' →
      Odd (backslashesAtEnd before)) ∧
    (∀ t, Guarded t ↔ ∃ s, escape s = t) := by
  refine ⟨escape_eq_replaceAll, escape_eq_flatMap, escape_append, unescape_escape,
    escape_injective, ?_, guarded_iff⟩
  intro s before c after hsplit hwild
  have hne : c ≠ '\\' := by rcases hwild with rfl | rfl <;> decide
  exact ((guarded_escape s).odd_iff before c after hsplit hne).2 hwild

theorem escaping_is_one_pass_that_can_be_undone_mixed :
    escape "\\%a_".toList = "\\\\\\%a\\_".toList ∧
    unescape "\\\\\\%a\\_".toList = "\\%a_".toList ∧
    Odd (backslashesAtEnd "\\\\\\".toList) := by
  obtain ⟨-, hpass, -, hundone, -, hodd, -⟩ := escaping_is_one_pass_that_can_be_undone
  have hescaped : escape "\\%a_".toList = "\\\\\\%a\\_".toList := by
    rw [hpass]
    decide
  refine ⟨hescaped, ?_, ?_⟩
  · rw [← hescaped]
    exact hundone "\\%a_".toList
  · exact hodd _ "\\\\\\".toList '%' "a\\_".toList hescaped (.inl rfl)

end Listing.Sql.Like
