import Listing.Json.Value

/-!
Embedded texts are documents like any other. The strings of a tree are shorter than the text it
was read from, so that the bound on nesting with which `Value.ofText?` reads is never met, and
`Value.ofText?` satisfies the equation that has no bound: it reads embedded texts by itself.
-/

set_option autoImplicit false

namespace Listing.Json

mutual

/-- Whether all leaves of a tree satisfy `p`; the names of members are not among them. -/
def Tree.All (p : Leaf → Prop) : Tree → Prop
  | .leaf l => p l
  | .array items => Tree.AllItems p items
  | .object members => Tree.AllMembers p members

def Tree.AllItems (p : Leaf → Prop) : List Tree → Prop
  | [] => True
  | t :: rest => t.All p ∧ Tree.AllItems p rest

def Tree.AllMembers (p : Leaf → Prop) : List (List Part × Tree) → Prop
  | [] => True
  | (_, t) :: rest => t.All p ∧ Tree.AllMembers p rest

end

theorem Tree.allItems_iff {p : Leaf → Prop} (items : List Tree) :
    Tree.AllItems p items ↔ ∀ t ∈ items, t.All p := by
  induction items with
  | nil => simp [Tree.AllItems]
  | cons t rest ih => simp [Tree.AllItems, ih]

theorem Tree.allMembers_iff {p : Leaf → Prop} (members : List (List Part × Tree)) :
    Tree.AllMembers p members ↔ ∀ m ∈ members, m.2.All p := by
  induction members with
  | nil => simp [Tree.AllMembers]
  | cons m rest ih => simp [Tree.AllMembers, ih]

def Frame.All (p : Leaf → Prop) : Frame → Prop
  | .array items => Tree.AllItems p items
  | .object members _ => Tree.AllMembers p members

def Due.All (p : Leaf → Prop) : Due → Prop
  | .name members | .colon members _ => Tree.AllMembers p members
  | .after t => t.All p
  | _ => True

def Reader.All (p : Leaf → Prop) (r : Reader) : Prop :=
  r.due.All p ∧ ∀ f ∈ r.stack, f.All p

namespace Reader

variable {p : Leaf → Prop}

theorem all_beginValue {stack : List Frame} {token : Token} {r : Reader}
    (h : beginValue? stack token = some r) (hs : ∀ f ∈ stack, f.All p)
    (ht : ∀ l, token = .leaf l → p l) : r.All p := by
  unfold beginValue? at h
  split at h <;> simp only [Option.some.injEq, reduceCtorEq] at h <;> subst h
  · exact ⟨ht _ rfl, hs⟩
  · exact ⟨trivial, hs⟩
  · exact ⟨trivial, hs⟩

theorem all_readName {members : List (List Part × Tree)} {stack : List Frame} {token : Token}
    {r : Reader} (h : readName? members stack token = some r) (hm : Tree.AllMembers p members)
    (hs : ∀ f ∈ stack, f.All p) : r.All p := by
  unfold readName? at h
  split at h <;> simp only [Option.some.injEq, reduceCtorEq] at h
  exact h ▸ ⟨hm, hs⟩

theorem all_afterValue {t : Tree} {stack : List Frame} {token : Token} {r : Reader}
    (h : afterValue? t stack token = some r) (ht : t.All p) (hs : ∀ f ∈ stack, f.All p) :
    r.All p := by
  unfold afterValue? at h
  split at h <;> simp only [Option.some.injEq, reduceCtorEq] at h <;> subst h <;>
    simp only [List.forall_mem_cons, Frame.All] at hs
  · exact ⟨trivial, List.forall_mem_cons.2 ⟨⟨ht, hs.1⟩, hs.2⟩⟩
  · refine ⟨(Tree.allItems_iff _).2 fun t' ht' => ?_, hs.2⟩
    exact (Tree.allItems_iff (t :: _)).1 ⟨ht, hs.1⟩ t' (List.mem_reverse.1 ht')
  · exact ⟨⟨ht, hs.1⟩, hs.2⟩
  · refine ⟨(Tree.allMembers_iff _).2 fun m hm => ?_, hs.2⟩
    exact (Tree.allMembers_iff ((_, t) :: _)).1 ⟨ht, hs.1⟩ m (List.mem_reverse.1 hm)

theorem all_step {r r' : Reader} {token : Token} (h : r.step? token = some r') (hr : r.All p)
    (ht : ∀ l, token = .leaf l → p l) : r'.All p := by
  obtain ⟨due, stack⟩ := r
  obtain ⟨hd, hs⟩ : due.All p ∧ ∀ f ∈ stack, f.All p := hr
  unfold step? at h
  dsimp only at h
  split at h
  · exact all_beginValue h hs ht
  · simp only [Option.some.injEq] at h
    exact h ▸ ⟨trivial, hs⟩
  · exact all_beginValue h (List.forall_mem_cons.2 ⟨trivial, hs⟩) ht
  · simp only [Option.some.injEq] at h
    exact h ▸ ⟨trivial, hs⟩
  · exact all_readName h trivial hs
  · exact all_readName h hd hs
  · simp only [Option.some.injEq] at h
    exact h ▸ ⟨trivial, List.forall_mem_cons.2 ⟨hd, hs⟩⟩
  · exact nomatch h
  · exact all_afterValue h hd hs

theorem all_foldlM {tokens : List Token} {r r' : Reader}
    (h : tokens.foldlM step? r = some r') (hr : r.All p)
    (ht : ∀ l, .leaf l ∈ tokens → p l) : r'.All p := by
  induction tokens generalizing r with
  | nil =>
    simp only [List.foldlM_nil, Option.pure_def, Option.some.injEq] at h
    exact h ▸ hr
  | cons token rest ih =>
    simp only [List.foldlM_cons, Option.bind_eq_bind, Option.bind_eq_some_iff] at h
    obtain ⟨r₁, h₁, h⟩ := h
    exact ih h (all_step h₁ hr fun l hl => ht l (hl ▸ List.mem_cons_self))
      fun l hl => ht l (List.mem_cons_of_mem _ hl)

end Reader

theorem Tree.all_ofTokens {p : Leaf → Prop} {tokens : List Token} {t : Tree}
    (h : Tree.ofTokens? tokens = some t) (ht : ∀ l, .leaf l ∈ tokens → p l) : t.All p := by
  simp only [Tree.ofTokens?, Option.bind_eq_some_iff] at h
  obtain ⟨r, hr, h⟩ := h
  have hp := Reader.all_foldlM hr (p := p) ⟨trivial, fun _ h => nomatch h⟩ ht
  unfold Reader.finish? at h
  split at h <;> simp only [Option.some.injEq, reduceCtorEq] at h
  exact h ▸ hp.1

def Leaf.Within (n : Nat) : Leaf → Prop
  | .string parts => parts.length < n
  | _ => True

def Mode.held : Mode → Nat
  | .string parts | .escape parts | .unit parts _ _ => parts.length
  | _ => 0

theorem held_startToken (c : Char) : (startToken c).2.held = 0 := by
  unfold startToken
  split
  · rfl
  split
  · rfl
  split <;> rfl

theorem within_startToken {n : Nat} {c : Char} {l : Leaf} (h : .leaf l ∈ (startToken c).1) :
    l.Within n := by
  unfold startToken at h
  split at h
  · exact nomatch h
  split at h
  · exact nomatch h
  split at h
  · rename_i t ht
    simp only [List.mem_singleton] at h
    subst h
    unfold punctuation? at ht
    split at ht <;> simp at ht
  · exact nomatch h

theorem within_finishRun {n : Nat} {chars : List Char} {tokens : List Token} {l : Leaf}
    (h : finishRun? chars = some tokens) (hl : .leaf l ∈ tokens) : l.Within n := by
  simp only [finishRun?, Option.map_eq_some_iff] at h
  obtain ⟨l', h, rfl⟩ := h
  simp only [List.mem_singleton, Token.leaf.injEq] at hl
  subst hl
  unfold Leaf.ofRun? at h
  split at h
  · simp only [Option.some.injEq] at h
    exact h ▸ trivial
  split at h
  · simp only [Option.some.injEq] at h
    exact h ▸ trivial
  split at h
  · simp only [Option.some.injEq] at h
    exact h ▸ trivial
  · simp only [Option.bind_eq_some_iff] at h
    obtain ⟨_, _, h⟩ := h
    split at h <;> simp only [Option.some.injEq, reduceCtorEq] at h
    exact h ▸ trivial

theorem held_step {mode mode' : Mode} {c : Char} {written : List Token}
    (h : mode.step? c = some (written, mode')) :
    mode'.held ≤ mode.held + 1 ∧ ∀ l, .leaf l ∈ written → l.Within (mode.held + 1) := by
  unfold Mode.step? at h
  split at h
  · simp only [Option.some.injEq] at h
    have hc : mode'.held = 0 := by rw [← held_startToken c, h]
    exact ⟨by omega, fun l hl => within_startToken (c := c) (h ▸ hl)⟩
  · split at h
    · simp only [Option.map_eq_some_iff, Prod.mk.injEq] at h
      obtain ⟨tokens, ht, rfl, rfl⟩ := h
      rw [held_startToken]
      refine ⟨Nat.zero_le _, fun l hl => ?_⟩
      exact (List.mem_append.1 hl).elim (within_finishRun ht) within_startToken
    · simp only [Option.some.injEq, Prod.mk.injEq] at h
      obtain ⟨rfl, rfl⟩ := h
      exact ⟨Nat.zero_le _, fun _ h => nomatch h⟩
  · split at h
    · simp only [Option.some.injEq, Prod.mk.injEq] at h
      obtain ⟨rfl, rfl⟩ := h
      refine ⟨Nat.zero_le _, fun l hl => ?_⟩
      simp only [List.mem_singleton, Token.leaf.injEq] at hl
      subst hl
      simp [Leaf.Within, Mode.held]
    split at h
    · simp only [Option.some.injEq, Prod.mk.injEq] at h
      obtain ⟨rfl, rfl⟩ := h
      exact ⟨Nat.le_succ _, fun _ h => nomatch h⟩
    split at h
    · exact nomatch h
    · simp only [Option.some.injEq, Prod.mk.injEq] at h
      obtain ⟨rfl, rfl⟩ := h
      exact ⟨Nat.le_refl _, fun _ h => nomatch h⟩
  · split at h
    · simp only [Option.some.injEq, Prod.mk.injEq] at h
      obtain ⟨rfl, rfl⟩ := h
      exact ⟨Nat.le_succ _, fun _ h => nomatch h⟩
    · simp only [Option.map_eq_some_iff, Prod.mk.injEq] at h
      obtain ⟨_, _, rfl, rfl⟩ := h
      exact ⟨Nat.le_refl _, fun _ h => nomatch h⟩
  · simp only [Option.map_eq_some_iff, Prod.mk.injEq] at h
    obtain ⟨_, _, rfl, rfl⟩ := h
    refine ⟨?_, fun _ h => nomatch h⟩
    split <;> simp [Mode.held]

theorem Leaf.Within.mono {m n : Nat} {l : Leaf} (h : l.Within m) (hn : m ≤ n) : l.Within n := by
  cases l <;> try trivial
  exact Nat.lt_of_lt_of_le h hn

theorem within_scanFrom {n : Nat} {s : List Char} {mode : Mode} {tokens : List Token}
    (h : scanFrom? mode s = some tokens) (hn : mode.held + s.length ≤ n) {l : Leaf}
    (hl : .leaf l ∈ tokens) : l.Within n := by
  induction s generalizing mode tokens with
  | nil =>
    unfold scanFrom? Mode.finish? at h
    split at h
    · simp only [Option.some.injEq] at h
      exact nomatch h ▸ hl
    · exact within_finishRun h hl
    · exact nomatch h
  | cons c rest ih =>
    simp only [scanFrom?, Option.bind_eq_bind, Option.bind_eq_some_iff, Option.pure_def,
      Option.some.injEq] at h
    obtain ⟨⟨written, mode'⟩, hm, later, hr, rfl⟩ := h
    obtain ⟨hh, hw⟩ := held_step hm
    simp only [List.length_cons] at hn hr
    rcases List.mem_append.1 hl with hl | hl
    · exact (hw l hl).mono (by omega)
    · exact ih hr (by omega) hl

theorem Tree.within_ofText {s : List Char} {t : Tree} (h : Tree.ofText? s = some t) :
    t.All (Leaf.Within s.length) := by
  simp only [Tree.ofText?, Option.bind_eq_some_iff] at h
  obtain ⟨tokens, hs, h⟩ := h
  exact Tree.all_ofTokens h fun l hl => within_scanFrom hs (by simp [Mode.held]) hl

theorem length_readParts {parts : List Part} {cs : List Char} (h : readParts? parts = some cs) :
    cs.length ≤ parts.length := by
  fun_induction readParts? parts generalizing cs <;>
    simp only [Option.map_eq_some_iff, Option.some.injEq, reduceCtorEq] at h
  · exact h ▸ Nat.le_refl _
  all_goals
    rename_i ih
    obtain ⟨later, hl, rfl⟩ := h
    have := ih hl
    simp only [List.length_cons]
    omega

theorem length_embeddedText {n : Nat} {members : List (List Part × Tree)} {s : List Char}
    (h : embeddedText? members = some s) (hm : Tree.AllMembers (Leaf.Within n) members) :
    s.length < n := by
  unfold embeddedText? at h
  split at h
  · exact Nat.lt_of_le_of_lt (length_readParts h) hm.1
  · exact nomatch h

mutual

theorem Value.ofTree?_congr {f g : List Char → Option Value} {n : Nat}
    (h : ∀ s : List Char, s.length < n → f s = g s) :
    ∀ (t : Tree) (room : Nat), t.All (Leaf.Within n) →
      Value.ofTree? f room t = Value.ofTree? g room t
  | .leaf _, _, _ => rfl
  | .array _, 0, _ => rfl
  | .array items, room + 1, ht => by
    simp only [Value.ofTree?, Value.ofItems?_congr h items room ht]
  | .object _, 0, _ => rfl
  | .object members, room + 1, ht => by
    simp only [Value.ofTree?, Value.ofMembers?_congr h members room ht]
    split
    · exact Option.bind_congr fun s hs => h s (length_embeddedText hs ht)
    · rfl

theorem Value.ofItems?_congr {f g : List Char → Option Value} {n : Nat}
    (h : ∀ s : List Char, s.length < n → f s = g s) :
    ∀ (items : List Tree) (room : Nat), Tree.AllItems (Leaf.Within n) items →
      Value.ofItems? f room items = Value.ofItems? g room items
  | [], _, _ => rfl
  | t :: rest, room, ht => by
    simp only [Value.ofItems?, Value.ofTree?_congr h t room ht.1,
      Value.ofItems?_congr h rest room ht.2]

theorem Value.ofMembers?_congr {f g : List Char → Option Value} {n : Nat}
    (h : ∀ s : List Char, s.length < n → f s = g s) :
    ∀ (members : List (List Part × Tree)) (room : Nat), Tree.AllMembers (Leaf.Within n) members →
      Value.ofMembers? f room members = Value.ofMembers? g room members
  | [], _, _ => rfl
  | (_, t) :: rest, room, ht => by
    simp only [Value.ofMembers?, Value.ofTree?_congr h t room ht.1,
      Value.ofMembers?_congr h rest room ht.2]

end

theorem ofNested?_nil (n : Nat) : Value.ofNested? n [] = none := by
  cases n <;> rfl

/-- Beyond the length of the text the bound makes no difference. -/
theorem ofNested?_eq {m n : Nat} {s : List Char} (hm : s.length ≤ m) (hn : s.length ≤ n) :
    Value.ofNested? m s = Value.ofNested? n s := by
  induction m generalizing n s with
  | zero =>
    rw [List.eq_nil_of_length_eq_zero (Nat.le_zero.1 hm), ofNested?_nil, ofNested?_nil]
  | succ m ih =>
    cases n with
    | zero =>
      rw [List.eq_nil_of_length_eq_zero (Nat.le_zero.1 hn), ofNested?_nil, ofNested?_nil]
    | succ n =>
      refine Option.bind_congr fun t ht => ?_
      exact Value.ofTree?_congr (fun s' hs => ih (by omega) (by omega)) t _
        (Tree.within_ofText ht)

/-- The equation without a bound: embedded texts are read as the text around them is. -/
theorem Value.ofText?_eq (s : List Char) :
    Value.ofText? s = (Tree.ofText? s).bind (Value.ofTree? Value.ofText? greatestDepth) := by
  unfold Value.ofText?
  rw [ofNested?_eq (Nat.le_refl _) (Nat.le_succ _)]
  refine Option.bind_congr fun t ht => ?_
  exact Value.ofTree?_congr (fun s' hs => ofNested?_eq (Nat.le_of_lt hs) (Nat.le_refl _)) t _
    (Tree.within_ofText ht)

end Listing.Json
