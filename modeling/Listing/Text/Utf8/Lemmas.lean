import Listing.Text.Utf8

set_option autoImplicit false

namespace Listing.Text.Utf8

theorem decodeFrom_cons (p : Option Pending) (b : UInt8) (bs : List UInt8) :
    decodeFrom p (b :: bs) = (step p b).1 ++ decodeFrom (step p b).2 bs := rfl

theorem toNat_byte {n : Nat} (h : n < 0x100) : (UInt8.ofNat n).toNat = n :=
  Nat.mod_eq_of_lt h

theorem start_single {n : Nat} (h : n ≤ 0x7F) :
    start (UInt8.ofNat n) = ([Char.ofNat n], none) := by
  simp only [start, toNat_byte (show n < 0x100 by omega), h, if_true]

theorem start_double {n : Nat} (h : 0x80 ≤ n) (h' : n ≤ 0x7FF) :
    start (UInt8.ofNat (n / 64 % 32 + 192)) = ([], some { bits := n / 64, owed := 1 }) := by
  simp only [start, toNat_byte (show n / 64 % 32 + 192 < 0x100 by omega)]
  rw [if_neg (by omega), if_pos (by simp; omega)]
  congr 3
  omega

theorem step_inside {p : Pending} {n : Nat} (hl : p.low.toNat ≤ n) (hh : n ≤ p.high.toNat) :
    step (some p) (UInt8.ofNat n) =
      if p.owed ≤ 1 then ([Char.ofNat (p.bits * 0x40 + n % 0x40)], none)
      else ([], some { bits := p.bits * 0x40 + n % 0x40, owed := p.owed - 1 }) := by
  have hn : (UInt8.ofNat n).toNat = n := toNat_byte (by have := p.high.toNat_lt; omega)
  simp [step, UInt8.le_iff_toNat_le, hn, hl, hh]

theorem decodeFrom_triple {n : Nat} (h : 0x800 ≤ n) (h' : n ≤ 0xFFFF)
    (hs : n < 0xD800 ∨ 0xDFFF < n) (rest : List UInt8) :
    decodeFrom none (UInt8.ofNat (n / 4096 % 16 + 224) :: UInt8.ofNat (n / 64 % 64 + 128) ::
      UInt8.ofNat (n % 64 + 128) :: rest) = Char.ofNat n :: decodeFrom none rest := by
  obtain ⟨p, hp, hb, ho, hl, hh⟩ : ∃ p, start (UInt8.ofNat (n / 4096 % 16 + 224)) = ([], some p) ∧
      p.bits = n / 4096 ∧ p.owed = 2 ∧ p.low.toNat ≤ n / 64 % 64 + 128 ∧
      n / 64 % 64 + 128 ≤ p.high.toNat := by
    simp only [start, toNat_byte (show n / 4096 % 16 + 224 < 0x100 by omega)]
    rw [if_neg (by omega), if_neg (by simp)]
    simp only [beq_iff_eq, Bool.and_eq_true, decide_eq_true_eq]
    split
    · exact ⟨_, rfl, by dsimp; omega, rfl, by dsimp; omega, by dsimp; omega⟩
    split
    · exact ⟨_, rfl, by dsimp; omega, rfl, by dsimp; omega, by dsimp; omega⟩
    rw [if_pos (by omega)]
    exact ⟨_, rfl, by dsimp; omega, rfl, by dsimp; omega, by dsimp; omega⟩
  rw [decodeFrom_cons, decodeFrom_cons, decodeFrom_cons, step, hp, step_inside hl hh, ho,
    if_neg (by simp), step_inside (by dsimp; omega) (by dsimp; omega), if_pos (by simp)]
  simp only [hb, List.nil_append, List.singleton_append]
  congr 2
  omega

theorem decodeFrom_quadruple {n : Nat} (h : 0x10000 ≤ n) (h' : n < 0x110000)
    (rest : List UInt8) :
    decodeFrom none (UInt8.ofNat (n / 262144 % 8 + 240) :: UInt8.ofNat (n / 4096 % 64 + 128) ::
      UInt8.ofNat (n / 64 % 64 + 128) :: UInt8.ofNat (n % 64 + 128) :: rest) =
      Char.ofNat n :: decodeFrom none rest := by
  obtain ⟨p, hp, hb, ho, hl, hh⟩ : ∃ p, start (UInt8.ofNat (n / 262144 % 8 + 240)) = ([], some p) ∧
      p.bits = n / 262144 ∧ p.owed = 3 ∧ p.low.toNat ≤ n / 4096 % 64 + 128 ∧
      n / 4096 % 64 + 128 ≤ p.high.toNat := by
    simp only [start, toNat_byte (show n / 262144 % 8 + 240 < 0x100 by omega)]
    rw [if_neg (by omega), if_neg (by simp), if_neg (by simp), if_neg (by simp),
      if_neg (by simp)]
    simp only [beq_iff_eq, Bool.and_eq_true, decide_eq_true_eq]
    split
    · exact ⟨_, rfl, by dsimp; omega, rfl, by dsimp; omega, by dsimp; omega⟩
    split
    · exact ⟨_, rfl, by dsimp; omega, rfl, by dsimp; omega, by dsimp; omega⟩
    rw [if_pos (by omega)]
    exact ⟨_, rfl, by dsimp; omega, rfl, by dsimp; omega, by dsimp; omega⟩
  rw [decodeFrom_cons, decodeFrom_cons, decodeFrom_cons, decodeFrom_cons, step, hp,
    step_inside hl hh, ho, if_neg (by simp), step_inside (by dsimp; omega) (by dsimp; omega),
    if_neg (by simp), step_inside (by dsimp; omega) (by dsimp; omega), if_pos (by simp)]
  simp only [hb, List.nil_append, List.singleton_append]
  congr 2
  omega

theorem decodeFrom_utf8EncodeChar (c : Char) (rest : List UInt8) :
    decodeFrom none (String.utf8EncodeChar c ++ rest) = c :: decodeFrom none rest := by
  have hc : Char.ofNat c.val.toNat = c := Char.ofNat_toNat c
  have hv : c.val.toNat < 0xD800 ∨ 0xDFFF < c.val.toNat ∧ c.val.toNat < 0x110000 := c.valid
  unfold String.utf8EncodeChar
  dsimp only
  split
  · next h => rw [List.singleton_append, decodeFrom_cons, step, start_single h, hc]; rfl
  split
  · next h h' =>
    rw [List.cons_append, List.singleton_append, decodeFrom_cons, decodeFrom_cons, step,
      start_double (by omega) h', step_inside (by dsimp; omega) (by dsimp; omega), if_pos (by simp)]
    simp only [List.nil_append, List.singleton_append]
    rw [show c.val.toNat / 64 * 64 + (c.val.toNat % 64 + 128) % 64 = c.val.toNat by omega, hc]
  split
  · next h h' h'' =>
    have := decodeFrom_triple (show 0x800 ≤ c.val.toNat by omega) h'' (by omega) rest
    rwa [hc] at this
  · next h h' h'' =>
    have := decodeFrom_quadruple (show 0x10000 ≤ c.val.toNat by omega) (by omega) rest
    rwa [hc] at this

@[simp] theorem decode_encode (s : List Char) : decode (encode s) = s := by
  induction s with
  | nil => rfl
  | cons c s ih =>
    rw [encode, List.flatMap_cons, decode, decodeFrom_utf8EncodeChar]
    exact congrArg (c :: ·) ih

@[simp] theorem encode_append (s t : List Char) : encode (s ++ t) = encode s ++ encode t :=
  List.flatMap_append

theorem encode_cons_ascii {c : Char} (h : c.toNat ≤ 0x7F) (s : List Char) :
    encode (c :: s) = UInt8.ofNat c.toNat :: encode s := by
  have hc : String.utf8EncodeChar c = [UInt8.ofNat c.toNat] := if_pos h
  rw [encode, List.flatMap_cons, hc]
  rfl

theorem toNat_of_mem_utf8EncodeChar {c : Char} (h : 0x7F < c.toNat) :
    ∀ b ∈ String.utf8EncodeChar c, 0x7F < b.toNat := by
  have hbyte (n : Nat) (hlow : 0x7F < n) (hhigh : n < 0x100) : 0x7F < (UInt8.ofNat n).toNat := by
    rwa [toNat_byte hhigh]
  unfold String.utf8EncodeChar
  dsimp only
  rw [if_neg (show ¬ c.val.toNat ≤ 0x7F from Nat.not_le.2 h)]
  split
  · simp only [List.forall_mem_cons]
    exact ⟨hbyte _ (by omega) (by omega), hbyte _ (by omega) (by omega), nofun⟩
  split
  · simp only [List.forall_mem_cons]
    exact ⟨hbyte _ (by omega) (by omega), hbyte _ (by omega) (by omega),
      hbyte _ (by omega) (by omega), nofun⟩
  · simp only [List.forall_mem_cons]
    exact ⟨hbyte _ (by omega) (by omega), hbyte _ (by omega) (by omega),
      hbyte _ (by omega) (by omega), hbyte _ (by omega) (by omega), nofun⟩

theorem eq_of_mem_utf8EncodeChar {c d : Char} (hd : d.toNat ≤ 0x7F)
    (h : UInt8.ofNat d.toNat ∈ String.utf8EncodeChar c) : c = d := by
  have hbyte : (UInt8.ofNat d.toNat).toNat = d.toNat := toNat_byte (by omega)
  have hc : c.toNat ≤ 0x7F := Nat.not_lt.1 fun hlarge => by
    have := toNat_of_mem_utf8EncodeChar hlarge _ h
    omega
  have hsingle : String.utf8EncodeChar c = [UInt8.ofNat c.toNat] := if_pos hc
  rw [hsingle, List.mem_singleton] at h
  rw [← Char.ofNat_toNat c, ← Char.ofNat_toNat d, ← hbyte, h, toNat_byte (by omega)]

end Listing.Text.Utf8
