import Listing.Proofs.DocumentValues

/-!
Arrays joined by a comma. The reader of tokens accepts nothing but the tokens of trees, and where a
text can be closed by a bracket the scanner has made its tokens without regard to what comes next.
So the items between two brackets may be followed by a comma and the items between two others, and
the array of all of them has the values of both.
-/

set_option autoImplicit false

namespace Listing.Json

namespace Tree

def listed (items : List Tree) : List Token :=
  items.flatMap fun t => t.tokens ++ [.comma]

def listedMembers (members : List (List Part × Tree)) : List Token :=
  members.flatMap fun m => memberTokens [m] ++ [.comma]

theorem itemTokens_cons_append (t : Tree) {items : List Tree} (h : items ≠ []) :
    itemTokens (t :: items) = t.tokens ++ .comma :: itemTokens items := by
  cases items with
  | nil => exact absurd rfl h
  | cons next items => rfl

theorem memberTokens_cons_append (m : List Part × Tree) {members : List (List Part × Tree)}
    (h : members ≠ []) :
    memberTokens (m :: members) = memberTokens [m] ++ .comma :: memberTokens members := by
  cases members with
  | nil => exact absurd rfl h
  | cons next members => simp [memberTokens]

@[simp] theorem itemTokens_append_singleton (items : List Tree) (t : Tree) :
    itemTokens (items ++ [t]) = listed items ++ t.tokens := by
  induction items with
  | nil => rfl
  | cons first items ih =>
    rw [List.cons_append, itemTokens_cons_append first (by simp), ih]
    simp [listed]

@[simp] theorem memberTokens_append_singleton (members : List (List Part × Tree))
    (m : List Part × Tree) :
    memberTokens (members ++ [m]) = listedMembers members ++ memberTokens [m] := by
  induction members with
  | nil => rfl
  | cons first members ih =>
    rw [List.cons_append, memberTokens_cons_append first (by simp), ih]
    simp [listedMembers]

theorem itemTokens_append {items others : List Tree} (h : items ≠ []) (h' : others ≠ []) :
    itemTokens (items ++ others) = itemTokens items ++ .comma :: itemTokens others := by
  induction items with
  | nil => exact absurd rfl h
  | cons t items ih =>
    cases items with
    | nil => exact itemTokens_cons_append t h'
    | cons next items =>
      have hne : next :: items ≠ [] := List.cons_ne_nil _ _
      rw [List.cons_append, itemTokens_cons_append t (by simp), ih hne,
        itemTokens_cons_append t hne]
      simp

end Tree

/-- The tokens of a container up to the item that is being read. -/
def Frame.tokens : Frame → List Token
  | .array items => .opening .square :: Tree.listed items.reverse
  | .object members name =>
    .opening .curly :: (Tree.listedMembers members.reverse ++ [.leaf (.string name), .colon])

def Due.tokens : Due → List Token
  | .value => []
  | .itemOrEnd => [.opening .square]
  | .nameOrEnd => [.opening .curly]
  | .name members => .opening .curly :: Tree.listedMembers members.reverse
  | .colon members parts =>
    .opening .curly :: (Tree.listedMembers members.reverse ++ [.leaf (.string parts)])
  | .after t => t.tokens

def Frame.stackTokens (stack : List Frame) : List Token :=
  stack.reverse.flatMap Frame.tokens

@[simp] theorem Frame.stackTokens_cons (f : Frame) (stack : List Frame) :
    Frame.stackTokens (f :: stack) = Frame.stackTokens stack ++ f.tokens := by
  simp [Frame.stackTokens]

namespace Reader

def tokens (r : Reader) : List Token :=
  Frame.stackTokens r.stack ++ r.due.tokens

variable {stack : List Frame} {token : Token} {r r' : Reader}

theorem tokens_beginValue (h : beginValue? stack token = some r) :
    r.tokens = Frame.stackTokens stack ++ [token] := by
  unfold beginValue? at h
  split at h <;> simp only [Option.some.injEq, reduceCtorEq] at h <;> subst h <;> rfl

theorem tokens_readName {members : List (List Part × Tree)}
    (h : readName? members stack token = some r) :
    r.tokens = Frame.stackTokens stack ++
      (.opening .curly :: (Tree.listedMembers members.reverse ++ [token])) := by
  unfold readName? at h
  split at h <;> simp only [Option.some.injEq, reduceCtorEq] at h
  subst h
  rfl

theorem tokens_afterValue {t : Tree} (h : afterValue? t stack token = some r) :
    r.tokens = Frame.stackTokens stack ++ (t.tokens ++ [token]) := by
  unfold afterValue? at h
  split at h <;> simp only [Option.some.injEq, reduceCtorEq] at h <;> subst h
  · simp [tokens, Frame.tokens, Due.tokens, Tree.listed]
  · simp [tokens, Frame.tokens, Due.tokens, Tree.tokens]
  · simp [tokens, Frame.tokens, Due.tokens, Tree.listedMembers, Tree.memberTokens]
  · simp [tokens, Frame.tokens, Due.tokens, Tree.tokens, Tree.memberTokens]

theorem tokens_step (h : r.step? token = some r') : r'.tokens = r.tokens ++ [token] := by
  obtain ⟨due, stack⟩ := r
  unfold step? at h
  dsimp only at h
  split at h
  · simpa [tokens, Due.tokens] using tokens_beginValue h
  · simp only [Option.some.injEq] at h
    subst h
    simp [tokens, Due.tokens, Tree.tokens, Tree.itemTokens]
  · simpa [tokens, Due.tokens, Frame.tokens, Tree.listed] using
      tokens_beginValue h
  · simp only [Option.some.injEq] at h
    subst h
    simp [tokens, Due.tokens, Tree.tokens, Tree.memberTokens]
  · simpa [tokens, Due.tokens, Tree.listedMembers] using tokens_readName h
  · simpa [tokens, Due.tokens] using tokens_readName h
  · simp only [Option.some.injEq] at h
    subst h
    simp [tokens, Due.tokens, Frame.tokens]
  · cases h
  · simpa [tokens, Due.tokens] using tokens_afterValue h

theorem tokens_foldlM {ts : List Token} (h : ts.foldlM step? r = some r') :
    r'.tokens = r.tokens ++ ts := by
  induction ts generalizing r with
  | nil =>
    simp only [List.foldlM_nil, Option.pure_def, Option.some.injEq] at h
    rw [h, List.append_nil]
  | cons token ts ih =>
    simp only [List.foldlM_cons, Option.bind_eq_bind, Option.bind_eq_some_iff] at h
    obtain ⟨next, hnext, h⟩ := h
    rw [ih h, tokens_step hnext, List.append_assoc, List.singleton_append]

end Reader

/-- A reader accepts the tokens of a tree, and no others. -/
theorem Tree.ofTokens?_eq_some_iff {ts : List Token} {t : Tree} :
    Tree.ofTokens? ts = some t ↔ ts = t.tokens := by
  refine ⟨fun h => ?_, fun h => h ▸ t.ofTokens_tokens⟩
  obtain ⟨r, hr, hfinish⟩ := Option.bind_eq_some_iff.1 h
  have htokens : r.tokens = ts := Reader.tokens_foldlM hr
  unfold Reader.finish? at hfinish
  split at hfinish <;> simp only [Option.some.injEq, reduceCtorEq] at hfinish
  subst hfinish
  exact htokens.symm

theorem scanFrom_closed {mode : Mode} {s : List Char} {tokens : List Token}
    (h : scanFrom? mode (s ++ [']']) = some tokens) :
    ∃ before, tokens = before ++ [.closing .square] ∧
      ∀ rest, Ends rest →
        scanFrom? mode (s ++ rest) = (scanFrom? .between rest).map (before ++ ·) := by
  induction s generalizing mode tokens with
  | nil =>
    have hclosing : scanFrom? .between [']'] = some [.closing .square] := rfl
    have hends : Ends [']'] := by simp [Ends, endsRun, punctuation?]
    cases mode with
    | between =>
      refine ⟨[], Option.some.inj (h.symm.trans hclosing), fun rest _ => ?_⟩
      simp
    | run seen =>
      cases hl : Leaf.ofRun? seen.reverse with
      | none => simp [scanFrom?, Mode.step?, finishRun?, hl, endsRun, punctuation?] at h
      | some l =>
        rw [List.nil_append, scanFrom_run_end hl hends, hclosing] at h
        exact ⟨[.leaf l], (Option.some.inj h).symm, fun rest hrest => scanFrom_run_end hl hrest⟩
    | string parts => simp [scanFrom?, Mode.step?, Mode.finish?] at h
    | escape parts => simp [scanFrom?, Mode.step?, simpleEscape?] at h
    | unit parts code digits => simp [scanFrom?, Mode.step?, Numeric.hexValue?] at h
  | cons c s ih =>
    cases hstep : mode.step? c with
    | none => simp [scanFrom?, hstep] at h
    | some result =>
      obtain ⟨written, next⟩ := result
      rw [List.cons_append, scanFrom_cons hstep] at h
      obtain ⟨later, hlater, rfl⟩ := Option.map_eq_some_iff.1 h
      obtain ⟨before, rfl, hscan⟩ := ih hlater
      refine ⟨written ++ before, (List.append_assoc ..).symm, fun rest hrest => ?_⟩
      rw [List.cons_append, scanFrom_cons hstep, hscan rest hrest, Option.map_map]
      simp [Function.comp_def]

theorem isSpace_of_step {mode : Mode} {c : Char} (h : mode.step? c = some ([], .between)) :
    mode = .between ∧ isSpace c = true := by
  cases mode with
  | between =>
    refine ⟨rfl, ?_⟩
    by_contra hc
    rw [Mode.step?, startToken, if_neg hc] at h
    split at h
    · simp at h
    · split at h <;> simp at h
  | run seen =>
    simp only [Mode.step?, finishRun?, Option.map_map] at h
    split at h <;> simp at h
  | string parts =>
    simp only [Mode.step?] at h
    split at h
    · simp at h
    · split at h
      · simp at h
      · split at h <;> simp at h
  | escape parts =>
    simp only [Mode.step?] at h
    split at h <;> simp at h
  | unit parts code digits =>
    simp only [Mode.step?, Option.map_eq_some_iff, Prod.mk.injEq] at h
    obtain ⟨_, -, -, hmode⟩ := h
    split at hmode <;> simp at hmode

theorem spaces_of_scanFrom {mode : Mode} {s : List Char} (h : scanFrom? mode s = some []) :
    mode = .between ∧ Spaces s := by
  induction s generalizing mode with
  | nil =>
    cases mode with
    | between => exact ⟨rfl, .nil⟩
    | run seen => simp [scanFrom?, Mode.finish?, finishRun?] at h
    | _ => simp [scanFrom?, Mode.finish?] at h
  | cons c s ih =>
    cases hstep : mode.step? c with
    | none => simp [scanFrom?, hstep] at h
    | some result =>
      obtain ⟨written, next⟩ := result
      rw [scanFrom_cons hstep] at h
      obtain ⟨later, hlater, hnil⟩ := Option.map_eq_some_iff.1 h
      obtain ⟨rfl, rfl⟩ := List.append_eq_nil_iff.1 hnil
      obtain ⟨rfl, hspaces⟩ := ih hlater
      obtain ⟨hmode, hc⟩ := isSpace_of_step hstep
      exact ⟨hmode, List.forall_mem_cons.2 ⟨hc, hspaces⟩⟩

def bracketed (s : List Char) : List Char :=
  '[' :: (s ++ [']'])

theorem scan_bracketed {s : List Char} {tokens : List Token} (h : ScansTo s tokens) :
    scan? (bracketed s) = some (.opening .square :: (tokens ++ [.closing .square])) := by
  have hscan := ScansTo.bracketed (.bare '[') rfl h (.bare ']') rfl [] nofun
  have hnothing : scanFrom? .between [] = some [] := rfl
  rw [List.append_nil, hnothing, Option.map_some, List.append_nil] at hscan
  exact hscan

theorem ofText_bracketed_of_scansTo {s : List Char} {items : List Tree}
    (h : ScansTo s (Tree.itemTokens items)) : Tree.ofText? (bracketed s) = some (.array items) := by
  rw [Tree.ofText?, scan_bracketed h]
  exact Tree.ofTokens_tokens (.array items)

theorem exists_items_of_ofText {s : List Char} {t : Tree}
    (h : Tree.ofText? (bracketed s) = some t) :
    ∃ items, t = .array items ∧ ScansTo s (Tree.itemTokens items) := by
  obtain ⟨tokens, htokens, htree⟩ := Option.bind_eq_some_iff.1 h
  have hopening : scan? (bracketed s) =
      (scanFrom? .between (s ++ [']'])).map (.opening .square :: ·) :=
    scanFrom_token rfl
  rw [hopening] at htokens
  obtain ⟨inner, hinner, rfl⟩ := Option.map_eq_some_iff.1 htokens
  obtain ⟨before, rfl, hscan⟩ := scanFrom_closed hinner
  have ht := Tree.ofTokens?_eq_some_iff.1 htree
  cases t with
  | leaf l => simp [Tree.tokens] at ht
  | object members => simp [Tree.tokens] at ht
  | array items =>
    rw [Tree.tokens, List.cons.injEq] at ht
    rw [List.append_cancel_right ht.2] at hscan
    exact ⟨items, rfl, hscan⟩

theorem ScansTo.ne_nil {s : List Char} {items : List Tree}
    (h : ScansTo s (Tree.itemTokens items)) (hs : ¬ Spaces s) : items ≠ [] := by
  rintro rfl
  have hnil := h [] nofun
  rw [List.append_nil] at hnil
  exact hs (spaces_of_scanFrom hnil).2

theorem ofText_joined {s s' : List Char} {items others : List Tree} (hs : ¬ Spaces s)
    (hs' : ¬ Spaces s') (h : Tree.ofText? (bracketed s) = some (.array items))
    (h' : Tree.ofText? (bracketed s') = some (.array others)) :
    Tree.ofText? (bracketed (s ++ ',' :: s')) = some (.array (items ++ others)) := by
  obtain ⟨_, hitems, hscan⟩ := exists_items_of_ofText h
  obtain ⟨_, hothers, hscan'⟩ := exists_items_of_ofText h'
  obtain rfl := Tree.array.inj hitems
  obtain rfl := Tree.array.inj hothers
  refine ofText_bracketed_of_scansTo ?_
  rw [Tree.itemTokens_append (hscan.ne_nil hs) (hscan'.ne_nil hs')]
  exact hscan.separated (.bare ',') hscan'

namespace Value

theorem ofItems?_append (embedded : List Char → Option Value) (room : Nat)
    (trees others : List Tree) :
    ofItems? embedded room (trees ++ others) =
      (ofItems? embedded room trees).bind fun vs =>
        (ofItems? embedded room others).map (vs ++ ·) := by
  induction trees with
  | nil => simp [ofItems?]
  | cons t trees ih =>
    simp only [List.cons_append, ofItems?, ih]
    cases ofTree? embedded room t with
    | none => rfl
    | some v =>
      cases ofItems? embedded room trees with
      | none => rfl
      | some vs => cases ofItems? embedded room others <;> rfl

/-- The value of an array is that of the items between its brackets. -/
theorem ofText_eq_array_iff {s : List Char} {items : List Value} :
    ofText? (bracketed s) = some (.array items) ↔
      ∃ trees, Tree.ofText? (bracketed s) = some (.array trees) ∧
        ofItems? ofText? (greatestDepth - 1) trees = some items := by
  rw [ofText?_eq, Option.bind_eq_some_iff]
  constructor
  · rintro ⟨t, ht, hvalue⟩
    obtain ⟨trees, rfl, -⟩ := exists_items_of_ofText ht
    obtain ⟨vs, hvs, harray⟩ := Option.map_eq_some_iff.1 hvalue
    obtain rfl := Value.array.inj harray
    exact ⟨trees, ht, hvs⟩
  · rintro ⟨trees, ht, hitems⟩
    refine ⟨_, ht, ?_⟩
    rw [greatestDepth, ofTree?]
    rw [greatestDepth] at hitems
    rw [hitems]
    rfl

/-- No item is read differently for the ones before it or after it. -/
theorem ofText_joined {s s' : List Char} {items others : List Value} (hs : ¬ Spaces s)
    (hs' : ¬ Spaces s') (h : ofText? (bracketed s) = some (.array items))
    (h' : ofText? (bracketed s') = some (.array others)) :
    ofText? (bracketed (s ++ ',' :: s')) = some (.array (items ++ others)) := by
  obtain ⟨trees, ht, hitems⟩ := ofText_eq_array_iff.1 h
  obtain ⟨trees', ht', hothers⟩ := ofText_eq_array_iff.1 h'
  refine ofText_eq_array_iff.2 ⟨trees ++ trees', Json.ofText_joined hs hs' ht ht', ?_⟩
  rw [ofItems?_append, hitems, hothers]
  rfl

end Value

end Listing.Json
