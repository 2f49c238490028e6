import Phrasebook.Mapping.Vlq
import Mathlib.Tactic.Ring
import Mathlib.Tactic.Positivity

/-!
# Base64 variable-length numbers read back

`Digits cs n` says that letters write a number, however many there are. Reading keeps the digits it
has seen in a word of 64 bits. While the value so far is below `2 ^ shift` and the rest of the
number has room in the bits that are left (`Partial.HasRoom`), the next digit falls into bits that
are free, so that joining it is adding it (`Partial.Takes`), and there is room for what follows
(`Partial.HasRoom.next`). So every number is read as some word, which is the number itself if that
fits into one (`Digits.exists_word`). Hence numbers of up to 63 bits are read back as they were
written (`decodeFrom_encode`), and no comma or semicolon stands in what was written.
-/

namespace Phrasebook.Mapping.Vlq

/-! ### Letters -/

theorem digit?_letter : ∀ digit < 64, digit? (letter digit) = some digit := by decide +kernel

theorem letter_mem (digit : Nat) : letter digit ∈ letters := by
  rw [letter, List.getD_eq_getElem?_getD]
  cases h : letters[digit]? with
  | none => decide +kernel
  | some c => exact List.mem_of_getElem? h

theorem ne_separator_of_mem_letters {c : Char} (h : c ∈ letters) : c ≠ ',' ∧ c ≠ ';' := by
  have hall : letters.all (fun c => c != ',' && c != ';') = true := by decide +kernel
  simpa using List.all_eq_true.mp hall c h

theorem mem_letters_of_mem_encodeNat {c : Char} :
    ∀ {fuel n : Nat}, c ∈ encodeNat fuel n → c ∈ letters
  | 0, n, h => by
    rw [encodeNat, List.mem_singleton] at h
    exact h ▸ letter_mem _
  | fuel + 1, n, h => by
    unfold encodeNat at h
    split at h
    · exact List.mem_singleton.mp h ▸ letter_mem _
    · rcases List.mem_cons.mp h with rfl | h
      · exact letter_mem _
      · exact mem_letters_of_mem_encodeNat h

theorem encodeNat_ne_nil (fuel n : Nat) : encodeNat fuel n ≠ [] := by
  cases fuel with
  | zero => simp [encodeNat]
  | succ fuel =>
    unfold encodeNat
    split <;> simp

theorem encode_ne_nil (v : Int) : encode v ≠ [] := encodeNat_ne_nil _ _

theorem ne_separator_of_mem_encode {v : Int} {c : Char} (h : c ∈ encode v) : c ≠ ',' ∧ c ≠ ';' :=
  ne_separator_of_mem_letters (mem_letters_of_mem_encodeNat h)

/-! ### Words -/

/-- A digit that is put behind a value joins none of its bits. -/
theorem toNat_or_shiftLeft {value shift : UInt64} {digit : Nat} (hs : shift.toNat < 64)
    (hv : value.toNat < 2 ^ shift.toNat) (hd : digit * 2 ^ shift.toNat < 2 ^ 64) :
    (value ||| (UInt64.ofNat digit <<< shift)).toNat = value.toNat + digit * 2 ^ shift.toNat := by
  have hpos : 0 < 2 ^ shift.toNat := by positivity
  have hdigit : digit < 2 ^ 64 := lt_of_le_of_lt (Nat.le_mul_of_pos_right digit hpos) hd
  have hshift : (UInt64.ofNat digit <<< shift).toNat = digit * 2 ^ shift.toNat := by
    rw [UInt64.toNat_shiftLeft, UInt64.toNat_ofNat_of_lt' hdigit, Nat.mod_eq_of_lt hs,
      Nat.shiftLeft_eq, Nat.mod_eq_of_lt hd]
  rw [UInt64.toNat_or, hshift, Nat.or_comm, Nat.mul_comm, ← Nat.two_pow_add_eq_or_of_lt hv]
  omega

/-- The integer that a number stands for: its half, negative if the number is odd. -/
def ofSigned (n : Nat) : Int := if n % 2 = 1 then -((n / 2 : Nat) : Int) else (n / 2 : Nat)

theorem ofSigned_signed (v : Int) : ofSigned (signed v) = v := by
  unfold ofSigned signed
  split <;> split <;> omega

theorem signed_lt {v : Int} (h : v.natAbs < 2 ^ 63) : signed v < 2 ^ 64 := by
  unfold signed
  split <;> omega

theorem unsigned_eq (word : UInt64) : unsigned word = ofSigned word.toNat := by
  have hmag : (word >>> 1).toNat = word.toNat / 2 := by
    rw [UInt64.toNat_shiftRight]
    simp [Nat.shiftRight_eq_div_pow]
  have hodd : word &&& 1 = 1 ↔ word.toNat % 2 = 1 := by
    rw [← UInt64.toNat_inj, UInt64.toNat_and]
    simp [Nat.and_one_is_mod]
  simp only [unsigned, ofSigned, hmag, hodd]

/-! ### Reading one digit -/

namespace Partial

variable {p : Partial} {n digit : Nat}

/-- The bits read so far and those of one more digit. -/
def join (p : Partial) (digit : Nat) : UInt64 :=
  p.value ||| (UInt64.ofNat (digit % 32) <<< p.shift.toUInt64)

/-- What has been read behind one more digit, of the same number or of the one after it. -/
def next (p : Partial) (digit : Nat) : Partial :=
  if 32 ≤ digit then ⟨p.join digit, p.shift + 5⟩ else {}

theorem next_of_more (h : 32 ≤ digit) : p.next digit = ⟨p.join digit, p.shift + 5⟩ := if_pos h

theorem next_of_last (h : digit < 32) : p.next digit = {} := if_neg (Nat.not_le.mpr h)

/-- The digit is put behind what has been read without losing anything: its place is in the word,
each of its bits is free there, and the place behind it is counted on. -/
structure Takes (p : Partial) (digit : Nat) : Prop where
  place : p.shift.toNat < 64
  join : (p.join digit).toNat = p.value.toNat + digit % 32 * 2 ^ p.shift.toNat
  count : (p.shift + 5).toNat = p.shift.toNat + 5

/-- The bits that are left have room for the number. -/
structure HasRoom (p : Partial) (n : Nat) : Prop where
  place : p.shift.toNat < 64
  low : p.value.toNat < 2 ^ p.shift.toNat
  fits : n * 2 ^ p.shift.toNat < 2 ^ 64

theorem hasRoom_start (h : n < 2 ^ 64) : HasRoom {} n :=
  ⟨by decide, by decide, by simpa using h⟩

theorem HasRoom.takes (h : p.HasRoom n) (hdigit : digit % 32 ≤ n) : p.Takes digit where
  place := h.place
  join := by
    have hfits : digit % 32 * 2 ^ p.shift.toNat ≤ n * 2 ^ p.shift.toNat :=
      Nat.mul_le_mul_right _ hdigit
    have hshift : p.shift.toUInt64.toNat = p.shift.toNat := by simp
    rw [← hshift]
    exact toNat_or_shiftLeft (by rw [hshift]; exact h.place) (by rw [hshift]; exact h.low)
      (by rw [hshift]; exact lt_of_le_of_lt hfits h.fits)
  count := by
    have hplace := h.place
    rw [UInt32.toNat_add]
    exact Nat.mod_eq_of_lt (by simp; omega)

/-- Behind a digit that says that more follow, there is room for the rest. -/
theorem HasRoom.next (h : p.HasRoom n) (hn : 32 ≤ n) :
    (p.next (32 + n % 32)).HasRoom (n / 32) := by
  have htakes : p.Takes (32 + n % 32) := h.takes (by omega)
  have hfits := h.fits
  have hlow := h.low
  have hdigit : (32 + n % 32) % 32 = n % 32 := by omega
  have hsplit : n * 2 ^ p.shift.toNat =
      n % 32 * 2 ^ p.shift.toNat + n / 32 * 2 ^ (p.shift.toNat + 5) := by
    have hn' : n = n % 32 + n / 32 * 32 := by omega
    rw [pow_add]
    nth_rewrite 1 [hn']
    ring
  have hrest : n / 32 * 2 ^ (p.shift.toNat + 5) < 2 ^ 64 := by omega
  rw [next_of_more (Nat.le_add_right _ _)]
  refine ⟨?_, ?_, ?_⟩
  · -- a place behind the word has no room for a number that is not zero
    have hle := Nat.le_mul_of_pos_left (2 ^ (p.shift.toNat + 5)) (show 0 < n / 32 by omega)
    rw [htakes.count]
    exact (Nat.pow_lt_pow_iff_right (by decide)).mp (lt_of_le_of_lt hle hrest)
  · have hpart : n % 32 * 2 ^ p.shift.toNat ≤ 31 * 2 ^ p.shift.toNat :=
      Nat.mul_le_mul_right _ (by omega)
    show (p.join (32 + n % 32)).toNat < 2 ^ (p.shift + 5).toNat
    rw [htakes.join, htakes.count, hdigit, pow_add]
    omega
  · show n / 32 * 2 ^ (p.shift + 5).toNat < 2 ^ 64
    rwa [htakes.count]

end Partial

/-- A digit that says that more follow goes into the word, another one ends the number. -/
theorem decodeFrom_cons {c : Char} {digit : Nat} (h : digit? c = some digit) (p : Partial)
    (cs : List Char) : decodeFrom p (c :: cs) =
      if 32 ≤ digit then decodeFrom (p.next digit) cs
      else (decodeFrom (p.next digit) cs).map (unsigned (p.join digit) :: ·) := by
  by_cases hmore : 32 ≤ digit
  · simp [decodeFrom, h, hmore, Partial.next_of_more, Partial.join]
  · simp [decodeFrom, h, hmore, Partial.next_of_last (Nat.not_le.mp hmore), Partial.join]

/-! ### Numbers of any size -/

/-- The letters write the number: its digits, the least significant first, and all but the last one
say that more follow. -/
inductive Digits : List Char → Nat → Prop
  | last {c : Char} {d : Nat} (h : digit? c = some d) (hd : d < 32) : Digits [c] d
  | more {c : Char} {d : Nat} {cs : List Char} {n : Nat} (h : digit? c = some d) (hd : 32 ≤ d)
    (hcs : Digits cs n) : Digits (c :: cs) (d - 32 + 32 * n)

theorem digits_encodeNat : ∀ {fuel n : Nat}, n ≤ fuel → Digits (encodeNat fuel n) n
  | 0, n, hn => by
    obtain rfl : n = 0 := by omega
    exact .last (digit?_letter 0 (by decide)) (by decide)
  | fuel + 1, n, hn => by
    unfold encodeNat
    split
    · rename_i h32
      exact .last (digit?_letter n (by omega)) h32
    · have hmore := Digits.more (digit?_letter (32 + n % 32) (by omega)) (by omega)
        (digits_encodeNat (show n / 32 ≤ fuel by omega))
      have hn : 32 + n % 32 - 32 + 32 * (n / 32) = n := by omega
      rwa [hn] at hmore

theorem digit?_lt {c : Char} {d : Nat} (h : digit? c = some d) : d < 64 := by
  obtain ⟨hd, -, -⟩ := List.idxOf?_eq_some_iff.mp h
  exact hd

/-- Every number is read as a word, whatever follows it. A number that fits into the bits that are
left is put into them, and nothing is lost of the word when the number is zero. -/
theorem Digits.exists_word {cs : List Char} {n : Nat} (h : Digits cs n) (p : Partial) :
    ∃ word : UInt64,
      (∀ rest, decodeFrom p (cs ++ rest) = (decodeFrom {} rest).map (unsigned word :: ·)) ∧
      (n = 0 → word = p.value) ∧
      (p.HasRoom n → word.toNat = p.value.toNat + n * 2 ^ p.shift.toNat) := by
  induction h generalizing p with
  | @last c d hc hd =>
    have hmod : d % 32 = d := Nat.mod_eq_of_lt hd
    refine ⟨p.join d, fun rest => ?_, ?_, fun hroom => ?_⟩
    · rw [List.singleton_append, decodeFrom_cons hc, if_neg (Nat.not_le.mpr hd),
        Partial.next_of_last hd]
    · rintro rfl
      simp [Partial.join]
    · rw [(hroom.takes (le_of_eq hmod)).join, hmod]
  | @more c d cs n hc hd hcs ih =>
    have hd64 := digit?_lt hc
    have hmod : d % 32 = d - 32 := by omega
    obtain ⟨word, hread, hzero, hexact⟩ := ih (p.next d)
    refine ⟨word, fun rest => ?_, fun h0 => ?_, fun hroom => ?_⟩
    · rw [List.cons_append, decodeFrom_cons hc, if_pos hd, hread]
    · obtain ⟨hd0, hn0⟩ : d - 32 = 0 ∧ n = 0 := by omega
      rw [hzero hn0, Partial.next_of_more hd, Partial.join, hmod, hd0]
      simp
    · have htakes : p.Takes d := hroom.takes (by omega)
      rcases Nat.eq_zero_or_pos n with rfl | hn
      · rw [hzero rfl, Partial.next_of_more hd, htakes.join, hmod, Nat.mul_zero, Nat.add_zero]
      · -- the digits above this one stand five bits higher
        have hnext := hroom.next (by omega)
        have hdigit : 32 + (d - 32 + 32 * n) % 32 = d := by omega
        have hrest : (d - 32 + 32 * n) / 32 = n := by omega
        rw [hdigit, hrest] at hnext
        rw [hexact hnext, Partial.next_of_more hd, htakes.join, htakes.count, hmod, pow_add]
        ring

/-! ### Reading back -/

/-- Numbers whose magnitude has at most 63 bits are read back as they were written. -/
theorem decodeFrom_encode {v : Int} (h : v.natAbs < 2 ^ 63) (rest : List Char) :
    decodeFrom {} (encode v ++ rest) = (decodeFrom {} rest).map (v :: ·) := by
  obtain ⟨word, hread, -, hexact⟩ := (digits_encodeNat (le_refl (signed v))).exists_word {}
  have hword := hexact (Partial.hasRoom_start (signed_lt h))
  have hvalue : unsigned word = v := by
    rw [unsigned_eq, hword]
    simpa using ofSigned_signed v
  rw [encode, hread, hvalue]

end Phrasebook.Mapping.Vlq
