import Listing.Form
import Listing.Text.Utf8.Lemmas

/-!
Spellings of a text in a form. A character may be kept, unless form encoding gives it a meaning of
its own, a space may be a plus sign, and every character may be written by its bytes. However a
text is spelled, it is read back.
-/

set_option autoImplicit false

namespace Listing

open Text Numeric

inductive Spelled {α : Type} (spelling : α → List Char → Prop) : List α → List Char → Prop
  | nil : Spelled spelling [] []
  | cons {a : α} {as : List α} {piece rest : List Char} (h : spelling a piece)
    (hrest : Spelled spelling as rest) : Spelled spelling (a :: as) (piece ++ rest)

theorem Spelled.flatMap {α : Type} {spelling : α → List Char → Prop} {f : α → List Char}
    {as : List α} (h : ∀ a ∈ as, spelling a (f a)) : Spelled spelling as (as.flatMap f) := by
  induction as with
  | nil => exact .nil
  | cons a as ih =>
    obtain ⟨ha, has⟩ := List.forall_mem_cons.1 h
    exact .cons ha (ih has)

theorem Spelled.self {spelling : Char → List Char → Prop} {text : List Char}
    (h : ∀ c ∈ text, spelling c [c]) : Spelled spelling text text := by
  have hself : Spelled spelling text (text.flatMap fun c => [c]) := .flatMap h
  rwa [List.flatMap_singleton'] at hself

def IsHexDigit (c : Char) (n : Nat) : Prop :=
  n < 16 ∧ (c = Nat.digitChar n ∨ c = (Nat.digitChar n).toUpper)

theorem Spelled.forall_mem {α : Type} {spelling : α → List Char → Prop} {p : Char → Prop}
    {as : List α} {s : List Char} (h : Spelled spelling as s)
    (hpiece : ∀ a piece, spelling a piece → ∀ c ∈ piece, p c) : ∀ c ∈ s, p c := by
  induction h with
  | nil => exact nofun
  | cons ha _ ih => exact List.forall_mem_append.2 ⟨hpiece _ _ ha, ih⟩

instance (c : Char) (n : Nat) : Decidable (IsHexDigit c n) :=
  inferInstanceAs (Decidable (_ ∧ _))

namespace IsHexDigit

variable {c : Char} {n : Nat}

theorem read (h : IsHexDigit c n) : hexValue? c = some n := by
  obtain ⟨hn, rfl | rfl⟩ := h
  · exact (by decide : ∀ n < 16, hexValue? (Nat.digitChar n) = some n) n hn
  · exact (by decide : ∀ n < 16, hexValue? (Nat.digitChar n).toUpper = some n) n hn

theorem toNat_le (h : IsHexDigit c n) : c.toNat ≤ 0x7F := by
  obtain ⟨hn, rfl | rfl⟩ := h
  · exact (by decide : ∀ n < 16, (Nat.digitChar n).toNat ≤ 0x7F) n hn
  · exact (by decide : ∀ n < 16, (Nat.digitChar n).toUpper.toNat ≤ 0x7F) n hn

theorem ne_and (h : IsHexDigit c n) : c ≠ '&' := by
  rintro rfl
  exact nomatch h.read

end IsHexDigit

namespace Form

inductive ByteSpelling : UInt8 → List Char → Prop
  | percent {b : UInt8} {high low : Char} (hhigh : IsHexDigit high (b.toNat / 16))
    (hlow : IsHexDigit low (b.toNat % 16)) : ByteSpelling b ['%', high, low]

inductive CharSpelling : Char → List Char → Prop
  | kept {c : Char} (hand : c ≠ '&') (hplus : c ≠ '+') (hpercent : c ≠ '%') : CharSpelling c [c]
  | plus : CharSpelling ' ' ['+']
  | bytes {c : Char} {s : List Char} (h : Spelled ByteSpelling (String.utf8EncodeChar c) s) :
    CharSpelling c s

abbrev TextSpelling : List Char → List Char → Prop :=
  Spelled CharSpelling

theorem unescape_cons {b : UInt8} (h : b ≠ 0x25) (rest : List UInt8) :
    unescape (b :: rest) = plusToSpace b :: unescape rest := by
  rw [unescape]
  rintro high low rest rfl
  exact absurd rfl h

theorem unescape_percent {b high low : UInt8} (h : hexByte? high low = some b)
    (rest : List UInt8) : unescape (0x25 :: high :: low :: rest) = b :: unescape rest := by
  rw [unescape, h]

theorem hexByte_of_digits {high low : Char} {b : UInt8} (hhigh : IsHexDigit high (b.toNat / 16))
    (hlow : IsHexDigit low (b.toNat % 16)) :
    hexByte? (UInt8.ofNat high.toNat) (UInt8.ofNat low.toNat) = some b := by
  have hchar {c : Char} (h : c.toNat ≤ 0x7F) : Char.ofNat (UInt8.ofNat c.toNat).toNat = c := by
    rw [Utf8.toNat_byte (by omega), Char.ofNat_toNat]
  have hvalue : b.toNat / 16 * 16 + b.toNat % 16 = b.toNat := by omega
  rw [hexByte?, hchar hhigh.toNat_le, hchar hlow.toNat_le, hhigh.read, hlow.read]
  exact congrArg some (by rw [hvalue, UInt8.ofNat_toNat])

theorem unescape_bytes {bytes : List UInt8} {s : List Char} (h : Spelled ByteSpelling bytes s)
    (rest : List UInt8) : unescape (Utf8.encode s ++ rest) = bytes ++ unescape rest := by
  induction h with
  | nil => rfl
  | cons hb _ ih =>
    obtain ⟨hhigh, hlow⟩ := hb
    rw [Utf8.encode_append, Utf8.encode_cons_ascii (by decide),
      Utf8.encode_cons_ascii hhigh.toNat_le, Utf8.encode_cons_ascii hlow.toNat_le]
    simp only [List.cons_append, List.append_assoc]
    exact (unescape_percent (hexByte_of_digits hhigh hlow) _).trans (congrArg _ ih)

theorem unescape_kept {bytes : List UInt8} (h : ∀ b ∈ bytes, b ≠ 0x25 ∧ b ≠ 0x2B)
    (rest : List UInt8) : unescape (bytes ++ rest) = bytes ++ unescape rest := by
  induction bytes with
  | nil => rfl
  | cons b bytes ih =>
    obtain ⟨⟨hpercent, hplus⟩, hbytes⟩ := List.forall_mem_cons.1 h
    rw [List.cons_append, unescape_cons hpercent, ih hbytes, plusToSpace,
      if_neg (by simpa using hplus)]
    rfl

theorem unescape_char {c : Char} {s : List Char} (h : CharSpelling c s) (rest : List UInt8) :
    unescape (Utf8.encode s ++ rest) = String.utf8EncodeChar c ++ unescape rest := by
  cases h with
  | kept _ hplus hpercent =>
    have hbytes : ∀ b ∈ String.utf8EncodeChar c, b ≠ 0x25 ∧ b ≠ 0x2B := by
      refine fun b hb => ⟨?_, ?_⟩
      · rintro rfl
        exact hpercent (Utf8.eq_of_mem_utf8EncodeChar (by decide) hb)
      · rintro rfl
        exact hplus (Utf8.eq_of_mem_utf8EncodeChar (by decide) hb)
    rw [Utf8.encode, List.flatMap_cons, List.flatMap_nil, List.append_nil, unescape_kept hbytes]
  | plus => exact unescape_cons (by decide) rest
  | bytes h => exact unescape_bytes h rest

theorem unescape_text {text s : List Char} (h : TextSpelling text s) :
    unescape (Utf8.encode s) = Utf8.encode text := by
  induction h with
  | nil => rfl
  | cons hc _ ih => rw [Utf8.encode_append, unescape_char hc, ih]; rfl

theorem decodeText_of_spelling {text s : List Char} (h : TextSpelling text s) :
    decodeText s = String.ofList text := by
  rw [decodeText, unescape_text h, Utf8.decode_encode]

theorem ne_and_of_spelling {text s : List Char} (h : TextSpelling text s) : ∀ c ∈ s, c ≠ '&' := by
  refine h.forall_mem fun c piece hc => ?_
  cases hc with
  | kept hand => simpa using hand
  | plus => simp
  | bytes hbytes =>
    refine hbytes.forall_mem fun b piece hb => ?_
    obtain ⟨hhigh, hlow⟩ := hb
    simp [hhigh.ne_and, hlow.ne_and]

theorem ne_and_of_spellings {name value n v : List Char} (hname : TextSpelling name n)
    (hvalue : TextSpelling value v) : ∀ c ∈ n ++ '=' :: v, c ≠ '&' :=
  List.forall_mem_append.2
    ⟨ne_and_of_spelling hname, List.forall_mem_cons.2 ⟨by decide, ne_and_of_spelling hvalue⟩⟩

theorem readPair_of_spelling {name value n v : List Char} (hname : TextSpelling name n)
    (hvalue : TextSpelling value v) (hn : '=' ∉ n) :
    readPair (n ++ '=' :: v) = (String.ofList name, String.ofList value) := by
  have hbefore : ∀ c ∈ n, (c != '=') = true := fun c hc => by
    simpa using fun he : c = '=' => hn (he ▸ hc)
  rw [readPair, List.takeWhile_append_of_pos hbefore, List.dropWhile_append_of_pos hbefore]
  simp [decodeText_of_spelling hname, decodeText_of_spelling hvalue]

theorem readPairs_of_piece {piece : List Char} (hand : ∀ c ∈ piece, c ≠ '&') (hne : piece ≠ []) :
    readPairs piece = [readPair piece] := by
  have hpiece : ∀ c ∈ piece, (c == '&') = false := fun c hc => beq_eq_false_iff_ne.2 (hand c hc)
  rw [readPairs, List.splitOn, List.splitOnP_eq_singleton hpiece]
  simp [hne]

theorem readPairs_of_spelling {name value n v : List Char} (hname : TextSpelling name n)
    (hvalue : TextSpelling value v) (hn : '=' ∉ n) :
    readPairs (n ++ '=' :: v) = [(String.ofList name, String.ofList value)] := by
  rw [readPairs_of_piece (ne_and_of_spellings hname hvalue) (by simp),
    readPair_of_spelling hname hvalue hn]

def isReserved (c : Char) : Bool :=
  c == '&' || c == '+' || c == '%'

theorem spelling_self {text : List Char} (h : text.any isReserved = false) :
    TextSpelling text text := by
  refine .self fun c hc => ?_
  have hplain := List.any_eq_false.1 h c hc
  simp only [isReserved, Bool.or_eq_true, beq_iff_eq, not_or] at hplain
  exact .kept hplain.1.1 hplain.1.2 hplain.2

end Form
end Listing
