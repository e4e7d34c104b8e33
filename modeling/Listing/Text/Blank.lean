set_option autoImplicit false

namespace Listing.Text

/-- The 25 code points with the Unicode property `White_Space`. -/
def isBlank (c : Char) : Bool :=
  let n := c.toNat
  (0x9 ≤ n && n ≤ 0xD) || n == 0x20 || n == 0x85 || n == 0xA0 || n == 0x1680 ||
    (0x2000 ≤ n && n ≤ 0x200A) || n == 0x2028 || n == 0x2029 || n == 0x202F ||
    n == 0x205F || n == 0x3000

def stripStart (s : List Char) : List Char :=
  s.dropWhile isBlank

def stripEnd (s : List Char) : List Char :=
  (s.reverse.dropWhile isBlank).reverse

def stripChars (s : List Char) : List Char :=
  stripEnd (stripStart s)

def strip (s : String) : String :=
  String.ofList (stripChars s.toList)

def firstWord? (s : String) : Option String :=
  match (stripStart s.toList).takeWhile (fun c => !isBlank c) with
  | [] => none
  | word => some (String.ofList word)

@[simp] theorem toList_strip (s : String) : (strip s).toList = stripChars s.toList :=
  String.toList_ofList

theorem head?_dropWhile_isBlank (s : List Char) :
    ∀ c ∈ (s.dropWhile isBlank).head?, isBlank c = false := by
  intro c hc
  have h := List.head?_dropWhile_not isBlank s
  rw [Option.mem_def.1 hc] at h
  simpa using h

theorem getLast?_stripChars (s : List Char) :
    ∀ c ∈ (stripChars s).getLast?, isBlank c = false := by
  rw [stripChars, stripEnd, List.getLast?_reverse]
  exact head?_dropWhile_isBlank _

theorem stripChars_append (s : List Char) :
    stripChars s ++ ((stripStart s).reverse.takeWhile isBlank).reverse = stripStart s := by
  rw [stripChars, stripEnd, ← List.reverse_append, List.takeWhile_append_dropWhile,
    List.reverse_reverse]

theorem head?_stripChars (s : List Char) : ∀ c ∈ (stripChars s).head?, isBlank c = false := by
  intro c hc
  have hstart := head?_dropWhile_isBlank s
  rw [← stripStart, ← stripChars_append, List.head?_append, Option.mem_def.1 hc] at hstart
  exact hstart c rfl

theorem stripChars_surrounded {before after : List Char} (hbefore : ∀ c ∈ before, isBlank c = true)
    (s : List Char) (hafter : ∀ c ∈ after, isBlank c = true) :
    stripChars (before ++ s ++ after) = stripChars s := by
  unfold stripChars stripEnd stripStart
  rw [List.append_assoc, List.dropWhile_append_of_pos hbefore, List.dropWhile_append]
  split
  · rename_i hnone
    have hblank : after.dropWhile isBlank = [] := by
      rw [← List.append_nil after, List.dropWhile_append_of_pos hafter]
      rfl
    rw [List.isEmpty_iff.1 hnone, hblank]
  · rw [List.reverse_append, List.dropWhile_append_of_pos]
    exact fun c hc => hafter c (List.mem_reverse.1 hc)

theorem dropWhile_eq_self_of_head {s : List Char} (h : ∀ c ∈ s.head?, isBlank c = false) :
    s.dropWhile isBlank = s := by
  cases s with
  | nil => rfl
  | cons c s => rw [List.dropWhile_cons, h c rfl, if_neg Bool.false_ne_true]

theorem stripChars_eq_self {s : List Char} (hhead : ∀ c ∈ s.head?, isBlank c = false)
    (hlast : ∀ c ∈ s.getLast?, isBlank c = false) : stripChars s = s := by
  rw [stripChars, stripStart, dropWhile_eq_self_of_head hhead, stripEnd, dropWhile_eq_self_of_head,
    List.reverse_reverse]
  rwa [List.head?_reverse]

/-- A text between blanks, with none at its own ends. -/
def IsCore (raw core : List Char) : Prop :=
  (∃ before after, (∀ c ∈ before, isBlank c = true) ∧ (∀ c ∈ after, isBlank c = true) ∧
    raw = before ++ core ++ after) ∧
  (∀ c ∈ core.head?, isBlank c = false) ∧ ∀ c ∈ core.getLast?, isBlank c = false

theorem isCore_stripChars (raw : List Char) : IsCore raw (stripChars raw) := by
  refine ⟨⟨raw.takeWhile isBlank, ((stripStart raw).reverse.takeWhile isBlank).reverse,
    fun c hc => ?_, fun c hc => ?_, ?_⟩, head?_stripChars raw, getLast?_stripChars raw⟩
  · exact List.all_eq_true.1 (List.all_takeWhile ..) c hc
  · exact List.all_eq_true.1 (List.all_takeWhile ..) c (List.mem_reverse.1 hc)
  · rw [List.append_assoc, stripChars_append, stripStart, List.takeWhile_append_dropWhile]

theorem stripChars_eq_iff {raw core : List Char} : stripChars raw = core ↔ IsCore raw core := by
  constructor
  · rintro rfl
    exact isCore_stripChars raw
  · rintro ⟨⟨before, after, hbefore, hafter, rfl⟩, hhead, hlast⟩
    rw [stripChars_surrounded hbefore core hafter, stripChars_eq_self hhead hlast]

end Listing.Text
