import Listing.Proofs.Documents

/-!
Documents are read as what was written. The tokens of a tree are those from which the reader builds
it again, every text of a value is scanned to the tokens of some tree, and the value of that tree
is the one that was written, with the members of its objects sorted by name.
-/

set_option autoImplicit false

namespace Listing.Json

mutual

def Tree.tokens : Tree → List Token
  | .leaf l => [.leaf l]
  | .array items => .opening .square :: (Tree.itemTokens items ++ [.closing .square])
  | .object members => .opening .curly :: (Tree.memberTokens members ++ [.closing .curly])

def Tree.itemTokens : List Tree → List Token
  | [] => []
  | [t] => t.tokens
  | t :: next :: items => t.tokens ++ .comma :: Tree.itemTokens (next :: items)

def Tree.memberTokens : List (List Part × Tree) → List Token
  | [] => []
  | [(name, t)] => .leaf (.string name) :: .colon :: t.tokens
  | (name, t) :: next :: members =>
    .leaf (.string name) :: .colon :: (t.tokens ++ .comma :: Tree.memberTokens (next :: members))

end

theorem Tree.exists_first_token (t : Tree) :
    ∃ first later, t.tokens = first :: later ∧ first ≠ .closing .square := by
  cases t with
  | leaf l => exact ⟨_, _, rfl, nofun⟩
  | array items => exact ⟨_, _, rfl, nofun⟩
  | object members => exact ⟨_, _, rfl, nofun⟩

theorem Tree.read_itemOrEnd (t : Tree) (stack : List Frame) (more : List Token) :
    (t.tokens ++ more).foldlM Reader.step? { due := .itemOrEnd, stack } =
      (t.tokens ++ more).foldlM Reader.step? { due := .value, stack := .array [] :: stack } := by
  obtain ⟨first, later, ht, hfirst⟩ := t.exists_first_token
  have hstep : Reader.step? { due := .itemOrEnd, stack } first =
      Reader.step? { due := .value, stack := .array [] :: stack } first := by
    cases first with
    | closing b => cases b <;> first | rfl | exact absurd rfl hfirst
    | _ => rfl
  rw [ht, List.cons_append, List.foldlM_cons, List.foldlM_cons, hstep]

theorem Tree.itemTokens_cons (t : Tree) (items : List Tree) :
    ∃ more, Tree.itemTokens (t :: items) = t.tokens ++ more := by
  cases items with
  | nil => exact ⟨[], (List.append_nil _).symm⟩
  | cons next items => exact ⟨_, rfl⟩

-- The stack below a value is left alone, so the induction is on the tree for every stack; inside
-- a container it is on the items that are still to be read, for those that are read.
mutual

theorem Tree.read_tokens : ∀ (t : Tree) (stack : List Frame),
    t.tokens.foldlM Reader.step? { due := .value, stack } = some { due := .after t, stack }
  | .leaf _, _ => rfl
  | .array [], _ => rfl
  | .array (t :: items), stack => by
    have hitems := Tree.read_itemTokens (t :: items) [] stack nofun
    obtain ⟨more, hmore⟩ := Tree.itemTokens_cons t items
    rw [hmore, List.append_assoc] at hitems
    rw [Tree.tokens, hmore, List.foldlM_cons, List.append_assoc]
    exact (Tree.read_itemOrEnd t stack _).trans hitems
  | .object [], _ => rfl
  | .object (m :: members), stack => by
    have hmembers := Tree.read_memberTokens (m :: members) [] stack nofun
    cases members with
    | nil => exact hmembers
    | cons next members => exact hmembers

theorem Tree.read_itemTokens : ∀ (items before : List Tree) (stack : List Frame), items ≠ [] →
    (Tree.itemTokens items ++ [Token.closing .square]).foldlM Reader.step?
      { due := .value, stack := .array before :: stack } =
        some { due := .after (.array (before.reverse ++ items)), stack }
  | [], _, _, h => absurd rfl h
  | [t], before, stack, _ => by
    rw [Tree.itemTokens, List.foldlM_append, Tree.read_tokens t]
    simp [Reader.step?, Reader.afterValue?]
  | t :: next :: items, before, stack, _ => by
    have hmore := Tree.read_itemTokens (next :: items) (t :: before) stack nofun
    rw [Tree.itemTokens, List.append_assoc, List.foldlM_append, Tree.read_tokens t]
    rw [List.reverse_cons, List.append_assoc] at hmore
    exact hmore

theorem Tree.read_memberTokens : ∀ (members before : List (List Part × Tree))
    (stack : List Frame), members ≠ [] →
    (Tree.memberTokens members ++ [Token.closing .curly]).foldlM Reader.step?
      { due := .name before, stack } =
        some { due := .after (.object (before.reverse ++ members)), stack }
  | [], _, _, h => absurd rfl h
  | [(name, t)], before, stack, _ => by
    rw [Tree.memberTokens]
    change (t.tokens ++ _).foldlM Reader.step?
      { due := .value, stack := .object before name :: stack } = _
    rw [List.foldlM_append, Tree.read_tokens t]
    simp [Reader.step?, Reader.afterValue?]
  | (name, t) :: next :: members, before, stack, _ => by
    have hmore := Tree.read_memberTokens (next :: members) ((name, t) :: before) stack nofun
    rw [Tree.memberTokens]
    change (t.tokens ++ _ ++ _).foldlM Reader.step?
      { due := .value, stack := .object before name :: stack } = _
    rw [List.append_assoc, List.foldlM_append, Tree.read_tokens t]
    rw [List.reverse_cons, List.append_assoc] at hmore
    exact hmore

end

theorem Tree.ofTokens_tokens (t : Tree) : Tree.ofTokens? t.tokens = some t := by
  rw [Tree.ofTokens?, Reader.start, Tree.read_tokens]
  rfl

mutual

def Value.depth : Value → Nat
  | .array items => Value.itemsDepth items + 1
  | .object members => Value.membersDepth members + 1
  | _ => 0

def Value.itemsDepth : List Value → Nat
  | [] => 0
  | v :: rest => max v.depth (Value.itemsDepth rest)

def Value.membersDepth : List (String × Value) → Nat
  | [] => 0
  | (_, v) :: rest => max v.depth (Value.membersDepth rest)

end

mutual

/-- A value as it is read: the members of its objects sorted, of those with one name the last. -/
def Value.sorted : Value → Value
  | .array items => .array (Value.sortedItems items)
  | .object members => .object (sortMembers (Value.sortedMembers members))
  | v => v

def Value.sortedItems : List Value → List Value
  | [] => []
  | v :: rest => v.sorted :: Value.sortedItems rest

def Value.sortedMembers : List (String × Value) → List (String × Value)
  | [] => []
  | (name, v) :: rest => (name, v.sorted) :: Value.sortedMembers rest

end

@[simp] theorem areSettled_iff (items : List Value) :
    Value.areSettled items = true ↔ ∀ v ∈ items, v.isSettled = true := by
  induction items with
  | nil => simp [Value.areSettled]
  | cons v items ih => simp [Value.areSettled, ih]

@[simp] theorem membersSettled_iff (members : List (String × Value)) :
    Value.membersSettled members = true ↔ ∀ m ∈ members, m.2.isSettled = true := by
  induction members with
  | nil => simp [Value.membersSettled]
  | cons m members ih => simp [Value.membersSettled, ih]

theorem itemsDepth_le_iff (items : List Value) (n : Nat) :
    Value.itemsDepth items ≤ n ↔ ∀ v ∈ items, v.depth ≤ n := by
  induction items with
  | nil => simp [Value.itemsDepth]
  | cons v items ih => rw [Value.itemsDepth, Nat.max_le, ih, List.forall_mem_cons]

theorem membersDepth_le_iff (members : List (String × Value)) (n : Nat) :
    Value.membersDepth members ≤ n ↔ ∀ m ∈ members, m.2.depth ≤ n := by
  induction members with
  | nil => simp [Value.membersDepth]
  | cons m members ih => rw [Value.membersDepth, Nat.max_le, ih, List.forall_mem_cons]

theorem lookup_insertMember (name other : String) (v : Value) (ms : List (String × Value)) :
    (insertMember name v ms).lookup other =
      if other == name then some v else ms.lookup other := by
  induction ms with
  | nil => cases h : other == name <;> simp [insertMember, List.lookup_cons, h]
  | cons m ms ih =>
    obtain ⟨first, w⟩ := m
    rw [insertMember]
    split
    · cases h : other == name <;> simp [List.lookup_cons, h]
    split
    · next hname =>
      subst hname
      cases h : other == name <;> simp [List.lookup_cons, h]
    · next hname =>
      rw [List.lookup_cons, ih, List.lookup_cons]
      cases h : other == first with
      | false => rfl
      | true =>
        obtain rfl := eq_of_beq h
        simp [Ne.symm hname]

@[simp] theorem lookup_sortMembers (ms : List (String × Value)) (name : String) :
    (sortMembers ms).lookup name = ms.reverse.lookup name := by
  have hfold : sortMembers ms = ms.reverse.foldr (fun m sorted => insertMember m.1 m.2 sorted) [] :=
    List.foldl_eq_foldr_reverse
  rw [hfold]
  induction ms.reverse with
  | nil => rfl
  | cons m ms ih =>
    rw [List.foldr_cons, lookup_insertMember, ih, List.lookup_cons]
    cases name == m.1 <;> rfl

theorem sortedMembers_eq {ms : List (String × Value)} (h : ∀ m ∈ ms, m.2.sorted = m.2) :
    Value.sortedMembers ms = ms := by
  induction ms with
  | nil => rfl
  | cons m ms ih =>
    obtain ⟨hm, hms⟩ := List.forall_mem_cons.1 h
    rw [Value.sortedMembers, hm, ih hms]

/-- A tree is read as a value, if that is not too deep and its objects are no embeddings. -/
def Tree.Denotes (t : Tree) (v : Value) : Prop :=
  ∀ (embedded : List Char → Option Value) (room : Nat), v.depth ≤ room → v.isSettled = true →
    Value.ofTree? embedded room t = some v.sorted

/-- A text is scanned to tokens wherever the next text ends a run. -/
def ScansTo (s : List Char) (tokens : List Token) : Prop :=
  ∀ rest : List Char, Ends rest →
    scanFrom? .between (s ++ rest) = (scanFrom? .between rest).map (tokens ++ ·)

def DenoteItems (trees : List Tree) (items : List Value) : Prop :=
  ∀ (embedded : List Char → Option Value) (room : Nat), Value.itemsDepth items ≤ room →
    Value.areSettled items = true →
    Value.ofItems? embedded room trees = some (Value.sortedItems items)

def DenoteMembers (trees : List (List Part × Tree)) (members : List (String × Value)) : Prop :=
  ∀ (embedded : List Char → Option Value) (room : Nat), Value.membersDepth members ≤ room →
    Value.membersSettled members = true →
    Value.ofMembers? embedded room trees = some (Value.sortedMembers members)

theorem ScansTo.nil : ScansTo [] [] :=
  fun rest _ => by simp

theorem ScansTo.run {run : List Char} {l : Leaf} (hrun : run.any endsRun = false)
    (hl : Leaf.ofRun? run = some l) : ScansTo run (Tree.leaf l).tokens :=
  fun _ hrest => scan_run hrun hl hrest

theorem ScansTo.bracketed {opening closing s : List Char} {c d : Char} {t u : Token}
    {tokens : List Token} (hopening : Around c opening) (hc : punctuation? c = some t)
    (h : ScansTo s tokens) (hclosing : Around d closing) (hd : punctuation? d = some u) :
    ScansTo (opening ++ (s ++ closing)) (t :: (tokens ++ [u])) := by
  intro rest _
  rw [List.append_assoc, List.append_assoc, hopening.scan hc, h _ (hclosing.ends hd rest),
    hclosing.scan hd]
  simp [Option.map_map, Function.comp_def]

theorem ScansTo.separated {s comma more : List Char} {tokens later : List Token}
    (h : ScansTo s tokens) (hcomma : Around ',' comma) (hmore : ScansTo more later) :
    ScansTo (s ++ (comma ++ more)) (tokens ++ .comma :: later) := by
  intro rest hrest
  rw [List.append_assoc, List.append_assoc, h _ (hcomma.ends rfl _), hcomma.scan rfl,
    hmore rest hrest]
  simp [Option.map_map, Function.comp_def]

theorem DenoteItems.nil : DenoteItems [] [] :=
  fun _ _ _ _ => rfl

theorem DenoteItems.cons {t : Tree} {v : Value} {trees : List Tree} {items : List Value}
    (h : t.Denotes v) (hrest : DenoteItems trees items) :
    DenoteItems (t :: trees) (v :: items) := by
  intro embedded room hdepth hsettled
  obtain ⟨hv, hitems⟩ := Bool.and_eq_true_iff.1 hsettled
  obtain ⟨hdepthValue, hdepthItems⟩ := Nat.max_le.1 hdepth
  rw [Value.ofItems?, h embedded room hdepthValue hv, hrest embedded room hdepthItems hitems]
  rfl

theorem DenoteMembers.nil : DenoteMembers [] [] :=
  fun _ _ _ _ => rfl

theorem DenoteMembers.cons {parts : List Part} {t : Tree} {m : String × Value}
    {trees : List (List Part × Tree)} {members : List (String × Value)}
    (hname : readString? parts = some m.1) (h : t.Denotes m.2)
    (hrest : DenoteMembers trees members) : DenoteMembers ((parts, t) :: trees) (m :: members) := by
  intro embedded room hdepth hsettled
  obtain ⟨hv, hmembers⟩ := Bool.and_eq_true_iff.1 hsettled
  obtain ⟨hdepthValue, hdepthMembers⟩ := Nat.max_le.1 hdepth
  rw [Value.ofMembers?, hname, h embedded room hdepthValue hv,
    hrest embedded room hdepthMembers hmembers]
  rfl

theorem denotes_array {trees : List Tree} {items : List Value} (h : DenoteItems trees items) :
    (Tree.array trees).Denotes (.array items) := by
  intro embedded room hdepth hsettled
  cases room with
  | zero => exact absurd hdepth (Nat.not_succ_le_zero _)
  | succ room =>
    rw [Value.ofTree?, h embedded room (Nat.le_of_succ_le_succ hdepth) hsettled]
    rfl

theorem denotes_object {trees : List (List Part × Tree)} {members : List (String × Value)}
    (hnames : trees.map (fun m => readString? m.1) = members.map (fun m => some m.1))
    (h : DenoteMembers trees members) : (Tree.object trees).Denotes (.object members) := by
  intro embedded room hdepth hsettled
  cases room with
  | zero => exact absurd hdepth (Nat.not_succ_le_zero _)
  | succ room =>
    obtain ⟨hfirst, hmembers⟩ := Bool.and_eq_true_iff.1 hsettled
    have hplain : isEmbedding trees = false := by
      cases trees with
      | nil => rfl
      | cons tree trees =>
        cases members with
        | nil => exact nomatch hnames
        | cons m members =>
          have hname : readString? tree.1 = some m.1 := (List.cons.inj hnames).1
          simpa [isEmbedding, hname] using hfirst
    rw [Value.ofTree?, hplain, h embedded room (Nat.le_of_succ_le_succ hdepth) hmembers]
    rfl

-- By induction on how the text is written. Only the tokens of a text that the rest does not run
-- into are known, which is why an item is scanned together with the comma or bracket after it.
mutual

theorem Written.exists_tree {v : Value} {s : List Char} (hw : Written v s) :
    ∃ t : Tree, ScansTo s t.tokens ∧ t.Denotes v := by
  match hw with
  | .null =>
    exact ⟨.leaf .null, .run (by decide) (by decide), fun _ _ _ _ => rfl⟩
  | .bool b =>
    refine ⟨.leaf (.bool b), ?_, fun _ _ _ _ => rfl⟩
    cases b
    · exact .run (by decide) (by decide)
    · exact .run (by decide) (by decide)
  | @Written.integer i hlow hhigh =>
    refine ⟨.leaf (.number (integerLiteral i)),
      .run (any_endsRun_writeInteger i) (ofRun_writeInteger i), fun _ _ _ _ => ?_⟩
    rw [Value.ofTree?, Value.ofLeaf?, readInteger_integerLiteral hlow hhigh]
    rfl
  | @Written.string text s h =>
    obtain ⟨parts, hscan, hread⟩ := exists_parts_of_spelling h
    refine ⟨.leaf (.string parts), fun rest _ => ?_, fun _ _ _ _ => ?_⟩
    · rw [List.cons_append, List.append_assoc]
      exact hscan.quoted rest
    · rw [Value.ofTree?, Value.ofLeaf?, readString?, hread, Option.map_some, Option.map_some,
        String.ofList_toList]
      rfl
  | .array hopening h hclosing =>
    obtain ⟨trees, -, hscan, hdenote⟩ := h.exists_trees
    exact ⟨.array trees, hscan.bracketed hopening rfl hclosing rfl, denotes_array hdenote⟩
  | .object hopening h hclosing =>
    obtain ⟨trees, hnames, hscan, hdenote⟩ := h.exists_trees
    exact ⟨.object trees, hscan.bracketed hopening rfl hclosing rfl, denotes_object hnames hdenote⟩

theorem WrittenItems.exists_trees {items : List Value} {s : List Char} (hw : WrittenItems items s) :
    ∃ trees, trees.length = items.length ∧ ScansTo s (Tree.itemTokens trees) ∧
      DenoteItems trees items := by
  match hw with
  | .nil => exact ⟨[], rfl, .nil, .nil⟩
  | .last h =>
    obtain ⟨t, hscan, hdenote⟩ := h.exists_tree
    exact ⟨[t], rfl, hscan, .cons hdenote .nil⟩
  | .cons h hcomma hmore =>
    obtain ⟨t, hscan, hdenote⟩ := h.exists_tree
    obtain ⟨_ | ⟨next, trees⟩, hlength, hscanMore, hdenoteMore⟩ := hmore.exists_trees
    · exact nomatch hlength
    · exact ⟨t :: next :: trees, congrArg Nat.succ hlength, hscan.separated hcomma hscanMore,
        .cons hdenote hdenoteMore⟩

theorem WrittenMember.exists_tree {m : String × Value} {s : List Char} (hw : WrittenMember m s) :
    ∃ parts t, ScansTo s (Tree.memberTokens [(parts, t)]) ∧ readString? parts = some m.1 ∧
      t.Denotes m.2 := by
  match hw with
  | @WrittenMember.named name v n colon s hname hcolon h =>
    obtain ⟨parts, hscan, hread⟩ := exists_parts_of_spelling hname
    obtain ⟨t, hscanValue, hdenote⟩ := h.exists_tree
    refine ⟨parts, t, fun rest hrest => ?_, ?_, hdenote⟩
    · simp only [List.cons_append, List.append_assoc]
      rw [hscan.quoted, hcolon.scan rfl, hscanValue rest hrest]
      simp [Tree.memberTokens, Option.map_map, Function.comp_def]
    · rw [readString?, hread, Option.map_some, String.ofList_toList]

theorem WrittenMembers.exists_trees {members : List (String × Value)} {s : List Char}
    (hw : WrittenMembers members s) :
    ∃ trees, trees.map (fun m => readString? m.1) = members.map (fun m => some m.1) ∧
      ScansTo s (Tree.memberTokens trees) ∧ DenoteMembers trees members := by
  match hw with
  | .nil => exact ⟨[], rfl, .nil, .nil⟩
  | .last h =>
    obtain ⟨parts, t, hscan, hread, hdenote⟩ := h.exists_tree
    exact ⟨[(parts, t)], congrArg (· :: []) hread, hscan, .cons hread hdenote .nil⟩
  | .cons h hcomma hmore =>
    obtain ⟨parts, t, hscan, hread, hdenote⟩ := h.exists_tree
    obtain ⟨_ | ⟨next, trees⟩, hnames, hscanMore, hdenoteMore⟩ := hmore.exists_trees
    · exact nomatch hnames
    · exact ⟨(parts, t) :: next :: trees, List.cons_eq_cons.2 ⟨hread, hnames⟩,
        hscan.separated hcomma hscanMore, .cons hread hdenote hdenoteMore⟩

end

/-- A document is read as its value, if it is not too deep and its objects are no embeddings. -/
theorem Value.ofText_of_document {v : Value} {s : List Char} (h : Document v s)
    (hdepth : v.depth ≤ greatestDepth) (hsettled : v.isSettled = true) :
    Value.ofText? s = some v.sorted := by
  obtain @⟨before, s, after, hbefore, hw, hafter⟩ := h
  obtain ⟨t, hscan, hdenote⟩ := hw.exists_tree
  have hnothing : Ends [] := nofun
  have hends : Ends after := by simpa using hafter.ends hnothing
  have hrest : scanFrom? .between after = some [] := by
    simpa [scanFrom?, Mode.finish?] using hafter.scan []
  have htokens : scan? (before ++ (s ++ after)) = some t.tokens := by
    rw [scan?, hbefore.scan, hscan after hends, hrest, Option.map_some, List.append_nil]
  rw [Value.ofText?_eq, Tree.ofText?, htokens, Option.bind_some, Tree.ofTokens_tokens,
    Option.bind_some]
  exact hdenote _ _ hdepth hsettled

end Listing.Json
