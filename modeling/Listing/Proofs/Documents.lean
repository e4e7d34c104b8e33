import Listing.Json.Embedding
import Listing.Json.Writer
import Listing.Proofs.Spelling
import Mathlib.Data.List.TakeWhile

/-!
Documents as anyone may write them: spaces around structural characters, strings with any of the
escapes, integers of 64 bits in plain decimal. The scanner makes one token of every string and of
every run, however they are written.
-/

set_option autoImplicit false

namespace Listing.Json

open Numeric

def shortEscapes : List (Char × Char) :=
  [('"', '"'), ('\\', '\\'), ('/', '/'), ('b', '\x08'), ('f', '\x0C'), ('n', '\n'), ('r', '\r'),
    ('t', '\t')]

inductive UnitSpelling : Nat → List Char → Prop
  | digits {n : Nat} {d₃ d₂ d₁ d₀ : Char} (h₃ : IsHexDigit d₃ (n / 0x1000))
    (h₂ : IsHexDigit d₂ (n / 0x100 % 0x10)) (h₁ : IsHexDigit d₁ (n / 0x10 % 0x10))
    (h₀ : IsHexDigit d₀ (n % 0x10)) : UnitSpelling n ['\\', 'u', d₃, d₂, d₁, d₀]

def leadUnit (c : Char) : Nat :=
  0xD800 + (c.toNat - 0x10000) / 0x400

def trailUnit (c : Char) : Nat :=
  0xDC00 + (c.toNat - 0x10000) % 0x400

inductive CharSpelling : Char → List Char → Prop
  | plain {c : Char} (hcontrol : 0x20 ≤ c.toNat) (hquote : c ≠ '"') (hback : c ≠ '\\') :
    CharSpelling c [c]
  | short {letter c : Char} (h : (letter, c) ∈ shortEscapes) : CharSpelling c ['\\', letter]
  | unit {c : Char} {s : List Char} (h : UnitSpelling c.toNat s) : CharSpelling c s
  | pair {c : Char} {lead trail : List Char} (hc : 0x10000 ≤ c.toNat)
    (hlead : UnitSpelling (leadUnit c) lead) (htrail : UnitSpelling (trailUnit c) trail) :
    CharSpelling c (lead ++ trail)

abbrev TextSpelling : List Char → List Char → Prop :=
  Spelled CharSpelling

def Spaces (s : List Char) : Prop :=
  ∀ c ∈ s, isSpace c = true

/-- A structural character with spaces around it. -/
inductive Around (c : Char) : List Char → Prop
  | spaced {before after : List Char} (hbefore : Spaces before) (hafter : Spaces after) :
    Around c (before ++ c :: after)

mutual

inductive Written : Value → List Char → Prop
  | null : Written .null "null".toList
  | bool (b : Bool) : Written (.bool b) (if b then "true".toList else "false".toList)
  | integer {i : Int} (hlow : -0x8000000000000000 ≤ i) (hhigh : i < 0x10000000000000000) :
    Written (.integer i) (writeInteger i)
  | string {text : String} {s : List Char} (h : TextSpelling text.toList s) :
    Written (.string text) ('"' :: (s ++ ['"']))
  | array {items : List Value} {opening s closing : List Char} (hopening : Around '[' opening)
    (h : WrittenItems items s) (hclosing : Around ']' closing) :
    Written (.array items) (opening ++ (s ++ closing))
  | object {members : List (String × Value)} {opening s closing : List Char}
    (hopening : Around '\x7b' opening) (h : WrittenMembers members s)
    (hclosing : Around '\x7d' closing) : Written (.object members) (opening ++ (s ++ closing))

inductive WrittenItems : List Value → List Char → Prop
  | nil : WrittenItems [] []
  | last {v : Value} {s : List Char} (h : Written v s) : WrittenItems [v] s
  | cons {v next : Value} {items : List Value} {s comma more : List Char} (h : Written v s)
    (hcomma : Around ',' comma) (hmore : WrittenItems (next :: items) more) :
    WrittenItems (v :: next :: items) (s ++ (comma ++ more))

inductive WrittenMember : String × Value → List Char → Prop
  | named {name : String} {v : Value} {n colon s : List Char} (hname : TextSpelling name.toList n)
    (hcolon : Around ':' colon) (h : Written v s) :
    WrittenMember (name, v) ('"' :: (n ++ '"' :: (colon ++ s)))

inductive WrittenMembers : List (String × Value) → List Char → Prop
  | nil : WrittenMembers [] []
  | last {m : String × Value} {s : List Char} (h : WrittenMember m s) : WrittenMembers [m] s
  | cons {m next : String × Value} {members : List (String × Value)} {s comma more : List Char}
    (h : WrittenMember m s) (hcomma : Around ',' comma)
    (hmore : WrittenMembers (next :: members) more) :
    WrittenMembers (m :: next :: members) (s ++ (comma ++ more))

end

/-- A document is one value with spaces around it. -/
inductive Document (v : Value) : List Char → Prop
  | spaced {before s after : List Char} (hbefore : Spaces before) (h : Written v s)
    (hafter : Spaces after) : Document v (before ++ (s ++ after))

theorem Spaces.nil : Spaces [] :=
  nofun

theorem Around.bare (c : Char) : Around c [c] :=
  .spaced .nil .nil

theorem Document.bare {v : Value} {s : List Char} (h : Written v s) : Document v s := by
  simpa using Document.spaced .nil h .nil

def needsEscape (c : Char) : Bool :=
  c.toNat < 0x20 || c == '"' || c == '\\'

theorem spelling_self {text : List Char} (h : text.any needsEscape = false) :
    TextSpelling text text := by
  refine .self fun c hc => ?_
  have hplain := List.any_eq_false.1 h c hc
  simp only [needsEscape, Bool.or_eq_true, decide_eq_true_eq, beq_iff_eq, not_or,
    Nat.not_lt] at hplain
  exact .plain hplain.1.1 hplain.1.2 hplain.2

theorem WrittenMember.plain {name text : String} (hname : name.toList.any needsEscape = false)
    (htext : text.toList.any needsEscape = false) :
    WrittenMember (name, .string text)
      ('"' :: (name.toList ++ '"' :: ([':'] ++ ('"' :: (text.toList ++ ['"']))))) :=
  .named (spelling_self hname) (.bare ':') (.string (spelling_self htext))

section Scanning

variable {mode next : Mode} {c : Char} {rest : List Char}

theorem scanFrom_cons {written : List Token} (h : mode.step? c = some (written, next)) :
    scanFrom? mode (c :: rest) = (scanFrom? next rest).map (written ++ ·) := by
  simp only [scanFrom?, h, Option.bind_eq_bind, Option.bind_some]
  cases scanFrom? next rest <;> rfl

theorem scanFrom_silent (h : mode.step? c = some ([], next)) :
    scanFrom? mode (c :: rest) = scanFrom? next rest := by
  rw [scanFrom_cons h]
  exact Option.map_id'

theorem scanFrom_token {t : Token} (h : mode.step? c = some ([t], next)) :
    scanFrom? mode (c :: rest) = (scanFrom? next rest).map (t :: ·) :=
  scanFrom_cons h

end Scanning

theorem scanFrom_digit {c : Char} {n : Nat} (h : IsHexDigit c n) (parts : List Part)
    (code digits : Nat) (rest : List Char) :
    scanFrom? (.unit parts code digits) (c :: rest) =
      scanFrom? (if digits = 3 then .string (.unit (code * 16 + n) :: parts)
        else .unit parts (code * 16 + n) (digits + 1)) rest :=
  scanFrom_silent (by rw [Mode.step?, h.read]; rfl)

theorem UnitSpelling.scan {n : Nat} {s : List Char} (h : UnitSpelling n s) (parts : List Part)
    (rest : List Char) :
    scanFrom? (.string parts) (s ++ rest) = scanFrom? (.string (.unit n :: parts)) rest := by
  obtain ⟨h₃, h₂, h₁, h₀⟩ := h
  have hn : (((0 * 16 + n / 0x1000) * 16 + n / 0x100 % 0x10) * 16 + n / 0x10 % 0x10) * 16 +
      n % 0x10 = n := by omega
  simp only [List.cons_append, List.nil_append]
  rw [scanFrom_silent (by rfl), scanFrom_silent (by rfl), scanFrom_digit h₃, if_neg (by decide),
    scanFrom_digit h₂, if_neg (by decide), scanFrom_digit h₁, if_neg (by decide),
    scanFrom_digit h₀, if_pos rfl, hn]

theorem UnitSpelling.lt {n : Nat} {s : List Char} (h : UnitSpelling n s) : n < 0x10000 := by
  obtain ⟨⟨h₃, -⟩, -⟩ := h
  omega

theorem readParts_units {c : Char} (hc : 0x10000 ≤ c.toNat) (later : List Part) :
    readParts? (.unit (leadUnit c) :: .unit (trailUnit c) :: later) =
      (readParts? later).map (c :: ·) := by
  have hvalid : c.toNat < 0xD800 ∨ 0xDFFF < c.toNat ∧ c.toNat < 0x110000 := c.valid
  have hlead : isLeadUnit (leadUnit c) = true := by
    refine Bool.and_eq_true_iff.2 ⟨decide_eq_true ?_, decide_eq_true ?_⟩
    all_goals
      unfold leadUnit
      omega
  have htrail : isTrailUnit (trailUnit c) = true := by
    refine Bool.and_eq_true_iff.2 ⟨decide_eq_true ?_, decide_eq_true ?_⟩
    all_goals
      unfold trailUnit
      omega
  have hcode : 0x10000 + (leadUnit c - 0xD800) * 0x400 + (trailUnit c - 0xDC00) = c.toNat := by
    unfold leadUnit trailUnit
    omega
  rw [readParts?.eq_def]
  simp [hlead, htrail, ofUnits, hcode]

theorem readParts_unit {c : Char} (hc : c.toNat < 0x10000) (later : List Part) :
    readParts? (.unit c.toNat :: later) = (readParts? later).map (c :: ·) := by
  have hvalid : c.toNat < 0xD800 ∨ 0xDFFF < c.toNat ∧ c.toNat < 0x110000 := c.valid
  have hlead : isLeadUnit c.toNat = false := by simp [isLeadUnit]; omega
  have htrail : isTrailUnit c.toNat = false := by simp [isTrailUnit]; omega
  rw [readParts?.eq_def]
  simp [hlead, htrail]

def ScansAs (s : List Char) (parts : List Part) : Prop :=
  ∀ (before : List Part) (rest : List Char),
    scanFrom? (.string before) (s ++ rest) = scanFrom? (.string (parts.reverse ++ before)) rest

theorem CharSpelling.exists_parts {c : Char} {s : List Char} (h : CharSpelling c s) :
    ∃ parts, ScansAs s parts ∧
      ∀ later, readParts? (parts ++ later) = (readParts? later).map (c :: ·) := by
  cases h with
  | plain hcontrol hquote hback =>
    refine ⟨[.char c], fun before rest => scanFrom_silent ?_, fun _ => rfl⟩
    simp [Mode.step?, hquote, hback, Nat.not_lt.2 hcontrol]
  | @short letter _ h =>
    refine ⟨[.char c], fun before rest => ?_, fun _ => rfl⟩
    obtain ⟨hu, he⟩ : letter ≠ 'u' ∧ simpleEscape? letter = some c := by
      simp only [shortEscapes, List.mem_cons, Prod.mk.injEq, List.not_mem_nil, or_false] at h
      rcases h with ⟨rfl, rfl⟩ | ⟨rfl, rfl⟩ | ⟨rfl, rfl⟩ | ⟨rfl, rfl⟩ | ⟨rfl, rfl⟩ | ⟨rfl, rfl⟩ |
        ⟨rfl, rfl⟩ | ⟨rfl, rfl⟩ <;> exact ⟨by decide, rfl⟩
    have hescape : Mode.step? (.escape before) letter = some ([], .string (.char c :: before)) := by
      simp [Mode.step?, hu, he]
    exact (scanFrom_silent rfl).trans (scanFrom_silent hescape)
  | unit h => exact ⟨[.unit c.toNat], h.scan, readParts_unit h.lt⟩
  | pair hc hlead htrail =>
    refine ⟨[.unit (leadUnit c), .unit (trailUnit c)], fun before rest => ?_, readParts_units hc⟩
    rw [List.append_assoc, hlead.scan, htrail.scan]
    rfl

theorem exists_parts_of_spelling {text s : List Char} (h : TextSpelling text s) :
    ∃ parts, ScansAs s parts ∧ readParts? parts = some text := by
  induction h with
  | nil => exact ⟨[], fun _ _ => rfl, rfl⟩
  | @cons c text piece s hc _ ih =>
    obtain ⟨parts, hscan, hread⟩ := hc.exists_parts
    obtain ⟨later, hscanLater, hreadLater⟩ := ih
    refine ⟨parts ++ later, fun before rest => ?_, ?_⟩
    · rw [List.append_assoc, hscan, hscanLater, List.reverse_append, List.append_assoc]
    · rw [hread, hreadLater]
      rfl

theorem ScansAs.quoted {s : List Char} {parts : List Part} (h : ScansAs s parts)
    (rest : List Char) :
    scanFrom? .between ('"' :: (s ++ '"' :: rest)) =
      (scanFrom? .between rest).map (.leaf (.string parts) :: ·) := by
  have hclose : Mode.step? (.string parts.reverse) '"' =
      some ([.leaf (.string parts)], .between) := by
    simp [Mode.step?]
  have hopen : Mode.step? .between '"' = some ([], .string []) := rfl
  rw [scanFrom_silent hopen, h, List.append_nil, scanFrom_token hclose]

theorem Spaces.scan {s : List Char} (h : Spaces s) (rest : List Char) :
    scanFrom? .between (s ++ rest) = scanFrom? .between rest := by
  induction s with
  | nil => rfl
  | cons c s ih =>
    obtain ⟨hc, hs⟩ := List.forall_mem_cons.1 h
    have hstep : Mode.step? .between c = some ([], .between) := by
      rw [Mode.step?, startToken, if_pos hc]
    rw [List.cons_append, scanFrom_silent hstep, ih hs]

theorem startToken_punctuation {c : Char} {t : Token} (h : punctuation? c = some t) :
    startToken c = ([t], .between) := by
  have hc : isSpace c = false ∧ c ≠ '"' := by
    unfold punctuation? at h
    split at h
    all_goals first | decide | simp at h
  simp [startToken, hc.1, hc.2, h]

theorem Around.scan {c : Char} {t : Token} {s : List Char} (h : Around c s)
    (ht : punctuation? c = some t) (rest : List Char) :
    scanFrom? .between (s ++ rest) = (scanFrom? .between rest).map (t :: ·) := by
  obtain ⟨hbefore, hafter⟩ := h
  have hstep : Mode.step? .between c = some ([t], .between) := by
    rw [Mode.step?, startToken_punctuation ht]
  rw [List.append_assoc, hbefore.scan, List.cons_append, scanFrom_token hstep, hafter.scan]

def Ends (s : List Char) : Prop :=
  ∀ c ∈ s.head?, endsRun c = true

theorem Spaces.ends {s : List Char} (h : Spaces s) {rest : List Char} (hrest : Ends rest) :
    Ends (s ++ rest) := by
  cases s with
  | nil => exact hrest
  | cons c s =>
    intro d hd
    obtain rfl : c = d := by simpa using hd
    simp [endsRun, h c List.mem_cons_self]

theorem Around.ends {c : Char} {t : Token} {s : List Char} (h : Around c s)
    (ht : punctuation? c = some t) (rest : List Char) : Ends (s ++ rest) := by
  obtain ⟨hbefore, -⟩ := h
  rw [List.append_assoc]
  refine hbefore.ends fun d hd => ?_
  obtain rfl : c = d := by simpa using hd
  simp [endsRun, ht]

section Runs

variable {run seen rest : List Char} {l : Leaf}

theorem scanFrom_run (h : run.any endsRun = false) :
    scanFrom? (.run seen) (run ++ rest) = scanFrom? (.run (run.reverse ++ seen)) rest := by
  induction run generalizing seen with
  | nil => rfl
  | cons c run ih =>
    rw [List.any_cons, Bool.or_eq_false_iff] at h
    obtain ⟨hc, hrun⟩ := h
    have hstep : Mode.step? (.run seen) c = some ([], .run (c :: seen)) := by
      simp [Mode.step?, hc]
    rw [List.cons_append, scanFrom_silent hstep, ih hrun, List.reverse_cons, List.append_assoc,
      List.singleton_append]

theorem scanFrom_run_end (hl : Leaf.ofRun? seen.reverse = some l) (hrest : Ends rest) :
    scanFrom? (.run seen) rest = (scanFrom? .between rest).map (.leaf l :: ·) := by
  have hfinish : finishRun? seen = some [.leaf l] := by rw [finishRun?, hl]; rfl
  cases rest with
  | nil => simp [scanFrom?, Mode.finish?, hfinish]
  | cons c rest =>
    -- the character that ends the run is read again as one that stands between tokens
    have hstep : Mode.step? (.run seen) c =
        some (.leaf l :: (startToken c).1, (startToken c).2) := by
      rw [Mode.step?, if_pos (hrest c rfl), hfinish]
      rfl
    have hstart : Mode.step? .between c = some (startToken c) := rfl
    rw [scanFrom_cons hstep, scanFrom_cons hstart, Option.map_map]
    rfl

theorem startToken_run {c : Char} (h : endsRun c = false) : startToken c = ([], .run [c]) := by
  simp only [endsRun, Bool.or_eq_false_iff, beq_eq_false_iff_ne] at h
  obtain ⟨⟨hspace, hquote⟩, hpunctuation⟩ := h
  rw [Option.isSome_eq_false_iff, Option.isNone_iff_eq_none] at hpunctuation
  simp [startToken, hspace, hquote, hpunctuation]

theorem scan_run (hrun : run.any endsRun = false) (hl : Leaf.ofRun? run = some l)
    (hrest : Ends rest) :
    scanFrom? .between (run ++ rest) = (scanFrom? .between rest).map (.leaf l :: ·) := by
  cases run with
  | nil =>
    have hnone : Leaf.ofRun? [] = none := by decide
    exact nomatch hnone.symm.trans hl
  | cons c run =>
    rw [List.any_cons, Bool.or_eq_false_iff] at hrun
    obtain ⟨hc, hrun⟩ := hrun
    have hstep : Mode.step? .between c = some ([], .run [c]) := by
      rw [Mode.step?, startToken_run hc]
    rw [List.cons_append, scanFrom_silent hstep, scanFrom_run hrun]
    exact scanFrom_run_end (by simpa using hl) hrest

end Runs

theorem head_decimalDigits {n : Nat} (h : 0 < n) : (decimalDigits n).head? ≠ some '0' := by
  induction n using Nat.strongRecOn with
  | ind n ih =>
    rcases Nat.lt_or_ge n 10 with hn | hn
    · have hdigit : n.digitChar ≠ '0' := fun hz => by
        have := Nat.digitChar_eq_zero.1 hz
        omega
      rw [decimalDigits, Nat.toDigits_of_lt_base hn]
      simpa using hdigit
    · have hrest := ih (n / 10) (by omega) (by omega)
      rw [decimalDigits] at hrest ⊢
      rw [Nat.toDigits_of_base_le (by decide) hn, List.head?_append]
      cases hd : Nat.toDigits 10 (n / 10) with
      | nil => exact absurd hd Nat.toDigits_ne_nil
      | cons c rest => rwa [hd] at hrest

def integerLiteral (i : Int) : Literal :=
  { sign := if i < 0 then some .minus else none
    whole := decimalDigits i.natAbs
    fraction := none
    exponent := none }

@[simp]
theorem read_writeInteger (i : Int) : Literal.read? (writeInteger i) = some (integerLiteral i) := by
  have hdigits : ∀ c ∈ decimalDigits i.natAbs, c.isDigit = true := fun _ =>
    isDigit_of_mem_decimalDigits
  have hsplit : Literal.splitDigits (decimalDigits i.natAbs) = (decimalDigits i.natAbs, []) := by
    rw [Literal.splitDigits, List.takeWhile_eq_self_iff.2 hdigits,
      List.dropWhile_eq_nil_iff.2 hdigits]
  have hsign : splitSign (writeInteger i) =
      (if i < 0 then some .minus else none, decimalDigits i.natAbs) := by
    unfold writeInteger
    split
    · rfl
    · cases hd : decimalDigits i.natAbs with
      | nil => rfl
      | cons c rest =>
        have hc : c.isDigit = true := hdigits c (by rw [hd]; exact List.mem_cons_self)
        rw [splitSign]
        · rintro _ ⟨⟩
          exact nomatch hc
        · rintro _ ⟨⟩
          exact nomatch hc
  rw [Literal.read?, hsign]
  simp only [hsplit]
  rfl

@[simp] theorem isNumber_integerLiteral (i : Int) : isNumber (integerLiteral i) = true := by
  have hsign : ((integerLiteral i).sign != some .plus) = true := by
    unfold integerLiteral
    dsimp only
    split <;> rfl
  have hwhole : (integerLiteral i).whole.isEmpty = false := by
    rw [List.isEmpty_eq_false_iff]
    exact Nat.toDigits_ne_nil
  have hzero : (integerLiteral i).whole.length = 1 ∨ (integerLiteral i).whole.head? ≠ some '0' := by
    rcases Nat.eq_zero_or_pos i.natAbs with h | h
    · exact .inl (by rw [integerLiteral, h]; rfl)
    · exact .inr (head_decimalDigits h)
  have hfraction : ((integerLiteral i).fraction != some []) = true := rfl
  simpa [isNumber, hsign, hwhole, hfraction] using hzero

@[simp] theorem ofRun_writeInteger (i : Int) :
    Leaf.ofRun? (writeInteger i) = some (.number (integerLiteral i)) := by
  have hword {word : String} (h : Literal.read? word.toList = none) :
      writeInteger i ≠ word.toList := by
    intro he
    rw [← he, read_writeInteger] at h
    exact nomatch h
  rw [Leaf.ofRun?, if_neg (hword (by decide)), if_neg (hword (by decide)),
    if_neg (hword (by decide)), read_writeInteger]
  exact if_pos (isNumber_integerLiteral i)

theorem readInteger_integerLiteral {i : Int} (hlow : -0x8000000000000000 ≤ i)
    (hhigh : i < 0x10000000000000000) : readInteger? (integerLiteral i) = some i := by
  have hvalue : digitsValue (integerLiteral i).whole = i.natAbs :=
    digitsValue_decimalDigits i.natAbs
  have hplain :
      ((integerLiteral i).fraction.isSome || (integerLiteral i).exponent.isSome) = false :=
    rfl
  rw [readInteger?, hplain, hvalue]
  rcases Int.lt_or_le i 0 with hi | hi
  · have hnegative : (integerLiteral i).isNegative = true := by
      simp [Literal.isNegative, integerLiteral, hi]
    have hfits : 0 < i.natAbs ∧ i.natAbs ≤ int64Max + 1 := by
      unfold int64Max UInt64.size
      omega
    have hvalue : -(i.natAbs : Int) = i := by omega
    simp only [hnegative, hfits, hvalue, decide_true, Bool.and_self, if_true, Bool.false_eq_true,
      if_false]
  · have hnegative : (integerLiteral i).isNegative = false := by
      simp [Literal.isNegative, integerLiteral, Int.not_lt.2 hi]
    have hfits : i.natAbs < UInt64.size := by
      unfold UInt64.size
      omega
    simp [hnegative, hfits, Int.natAbs_of_nonneg hi]

theorem endsRun_of_isDigit {c : Char} (h : c.isDigit = true) : endsRun c = false :=
  Numeric.of_isDigit (p := fun c => endsRun c = false) (by decide) h

@[simp] theorem any_endsRun_writeInteger (i : Int) : (writeInteger i).any endsRun = false := by
  have hdigits : (decimalDigits i.natAbs).any endsRun = false := by
    simp only [List.any_eq_false, Bool.not_eq_true]
    exact fun c hc => endsRun_of_isDigit (isDigit_of_mem_decimalDigits hc)
  unfold writeInteger
  split
  · rw [List.any_cons, hdigits]
    rfl
  · exact hdigits

end Listing.Json
