set_option autoImplicit false

namespace Listing

/-- A finite map as a list of entries, of which the last one of a name counts. -/
structure Table (α : Type) where
  entries : List (String × α) := []
  deriving DecidableEq, Repr

namespace Table

variable {α : Type}

def get? (t : Table α) (name : String) : Option α :=
  t.entries.reverse.lookup name

def insert (t : Table α) (name : String) (a : α) : Table α :=
  { entries := t.entries ++ [(name, a)] }

@[simp] theorem get?_insert (t : Table α) (name other : String) (a : α) :
    (t.insert name a).get? other = if other == name then some a else t.get? other := by
  simp only [get?, insert, List.reverse_append, List.reverse_cons, List.reverse_nil,
    List.nil_append, List.cons_append, List.lookup_cons]
  cases other == name <;> rfl

@[simp] theorem entries_foldl_insert (entries : List (String × α)) (t : Table α) :
    (entries.foldl (fun table entry => table.insert entry.1 entry.2) t).entries =
      t.entries ++ entries := by
  induction entries generalizing t with
  | nil => exact (List.append_nil _).symm
  | cons entry entries ih => rw [List.foldl_cons, ih, insert, List.append_assoc]; rfl

theorem mem_entries_of_get? {t : Table α} {name : String} {a : α} (h : t.get? name = some a) :
    (name, a) ∈ t.entries := by
  obtain ⟨before, after, he, -⟩ := List.lookup_eq_some_iff.1 h
  exact List.mem_reverse.1 (he ▸ by simp)

end Table
end Listing
