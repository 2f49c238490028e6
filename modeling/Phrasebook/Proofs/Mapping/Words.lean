import Phrasebook.Proofs.Mapping.Format

/-!
# Numbers of 64 bits, written and read by words

A signed word of 64 bits is written by operations on words: its sign is folded into the lowest bit
(`signedWord`), and five bits are cut off at a time (`encodeWord`). Only the smallest of these words
has no negative. All others are folded without losing a bit, so that what is written is the number
(`encodeWord_signedWord`).

Reading puts the digits into a word. `steps` are the digits of a text with what has been read in
front of each. Since there is room for a number of 64 bits at its beginning, and for the rest of it
behind each of its digits, reading what was written loses nothing (`takes_steps_flatMap`). It stops
at the end of each number, since all digits in front of the last one say that more follow
(`decode_of_isPrefix`).
-/

namespace Phrasebook.Mapping.Vlq

/-! ### Writing a word -/

/-- The magnitude of a number doubled, plus one when it is negative. -/
def signedWord (v : Int64) : UInt64 :=
  if v < 0 then ((-v).toUInt64 <<< 1) ||| 1 else v.toUInt64 <<< 1

theorem toNat_shiftRight_five (word : UInt64) : (word >>> 5).toNat = word.toNat / 32 := by
  rw [UInt64.toNat_shiftRight]
  simp [Nat.shiftRight_eq_div_pow]

/-- The digits of a word. -/
def encodeWord (word : UInt64) : List Char :=
  if word >>> 5 = 0 then [letter (word &&& 31).toNat]
  else letter ((word &&& 31) ||| 32).toNat :: encodeWord (word >>> 5)
termination_by word.toNat
decreasing_by
  rename_i hrest
  have hdiv := toNat_shiftRight_five word
  have hpos : (word >>> 5).toNat ≠ 0 := fun h0 => hrest (UInt64.toNat_inj.mp h0)
  omega

theorem toNat_and_digit (word : UInt64) : (word &&& 31).toNat = word.toNat % 32 := by
  rw [UInt64.toNat_and]
  show word.toNat &&& (2 ^ 5 - 1) = word.toNat % 2 ^ 5
  exact Nat.and_two_pow_sub_one_eq_mod _ _

theorem toNat_or_more {word : UInt64} (h : word.toNat < 32) :
    (word ||| 32).toNat = 32 + word.toNat := by
  rw [UInt64.toNat_or, Nat.or_comm]
  show 2 ^ 5 * 1 ||| word.toNat = 32 + word.toNat
  rw [← Nat.two_pow_add_eq_or_of_lt h]

theorem encodeWord_eq (word : UInt64) {fuel : Nat} (h : word.toNat ≤ fuel) :
    encodeWord word = encodeNat fuel word.toNat := by
  induction fuel generalizing word with
  | zero =>
    obtain rfl : word = 0 := UInt64.toNat_inj.mp (by simpa using h)
    rw [encodeWord]
    rfl
  | succ fuel ih =>
    have hrest := toNat_shiftRight_five word
    rw [encodeWord, encodeNat]
    -- a word without further digits is one that is less than 32
    by_cases hlast : word >>> 5 = 0
    · have hlt : word.toNat < 32 := by
        rw [hlast] at hrest
        simp at hrest
        omega
      rw [if_pos hlast, if_pos hlt, toNat_and_digit, Nat.mod_eq_of_lt hlt]
    · have hge : ¬ word.toNat < 32 := by
        intro hlt
        refine hlast (UInt64.toNat_inj.mp ?_)
        rw [hrest, Nat.div_eq_of_lt hlt]
        rfl
      have hmod : word.toNat % 32 < 32 := Nat.mod_lt _ (by decide)
      rw [if_neg hlast, if_neg hge, toNat_or_more (by rwa [toNat_and_digit]), toNat_and_digit,
        ih _ (by omega), hrest]

section Signed

variable {v : Int64}

theorem natAbs_toInt_lt (h : v ≠ Int64.minValue) : v.toInt.natAbs < 2 ^ 63 := by
  have hlt := v.toInt_lt
  have hle := v.le_toInt
  have hne : v.toInt ≠ -2 ^ 63 := by
    intro heq
    exact h (Int64.toInt_inj.mp (heq.trans Int64.toInt_minValue.symm))
  omega

/-- Every number but the smallest one has a negative. -/
theorem toInt_neg_of_ne (h : v ≠ Int64.minValue) : (-v).toInt = -v.toInt := by
  have hlt := natAbs_toInt_lt h
  rw [Int64.toInt_neg]
  exact Int.bmod_eq_of_le (by omega) (by omega)

theorem toNat_toUInt64_of_nonneg {w : Int64} (h : 0 ≤ w.toInt) :
    w.toUInt64.toNat = w.toInt.natAbs := by
  have hle : 0 ≤ w := Int64.le_iff_toInt_le.mpr (by simpa using h)
  rw [Int64.toNat_toUInt64_of_le hle, ← Int64.toNat_toInt]
  omega

theorem toNat_double {word : UInt64} (h : word.toNat < 2 ^ 63) :
    (word <<< 1).toNat = 2 * word.toNat := by
  rw [UInt64.toNat_shiftLeft]
  show word.toNat <<< 1 % 2 ^ 64 = 2 * word.toNat
  rw [Nat.shiftLeft_eq]
  omega

/-- Neither the doubling nor the sign loses a bit. -/
theorem toNat_signedWord (h : v ≠ Int64.minValue) : (signedWord v).toNat = signed v.toInt := by
  have habs := natAbs_toInt_lt h
  have hiff : v < 0 ↔ v.toInt < 0 := by
    rw [Int64.lt_iff_toInt_lt, Int64.toInt_zero]
  unfold signedWord signed
  by_cases hneg : v.toInt < 0
  · have hword : (-v).toUInt64.toNat = v.toInt.natAbs := by
      rw [toNat_toUInt64_of_nonneg (by rw [toInt_neg_of_ne h]; omega), toInt_neg_of_ne h,
        Int.natAbs_neg]
    have hdouble : ((-v).toUInt64 <<< 1).toNat = 2 * v.toInt.natAbs := by
      rw [toNat_double (by omega), hword]
    rw [if_pos (hiff.mpr hneg), if_pos hneg, UInt64.toNat_or, hdouble]
    show 2 ^ 1 * v.toInt.natAbs ||| 1 = 2 ^ 1 * v.toInt.natAbs + 1
    rw [← Nat.two_pow_add_eq_or_of_lt (by decide)]
  · have hword : v.toUInt64.toNat = v.toInt.natAbs := toNat_toUInt64_of_nonneg (by omega)
    rw [if_neg (fun hlt => hneg (hiff.mp hlt)), if_neg hneg, toNat_double (by omega), hword]

theorem encodeWord_signedWord (h : v ≠ Int64.minValue) :
    encodeWord (signedWord v) = encode v.toInt := by
  rw [encodeWord_eq _ (le_refl _), toNat_signedWord h, encode]

-- Of the number that has no negative only the sign is left.
example : signedWord Int64.minValue = 1 := by decide

end Signed

/-! ### Reading into a word -/

/-- The digits of a text up to the first character that is none, each with what has been read of
its number in front of it. -/
def steps (p : Partial) : List Char → List (Partial × Nat)
  | [] => []
  | c :: cs =>
    match digit? c with
    | some digit => (p, digit) :: steps (p.next digit) cs
    | none => []

theorem steps_cons {c : Char} {digit : Nat} (h : digit? c = some digit) (p : Partial)
    (cs : List Char) : steps p (c :: cs) = (p, digit) :: steps (p.next digit) cs := by
  simp only [steps, h]

theorem length_steps {cs : List Char} (h : ∀ c ∈ cs, c ∈ letters) (p : Partial) :
    (steps p cs).length = cs.length := by
  induction cs generalizing p with
  | nil => rfl
  | cons c cs ih =>
    obtain ⟨hc, hcs⟩ := List.forall_mem_cons.mp h
    cases hdigit : digit? c with
    | none => exact absurd hc (List.idxOf?_eq_none_iff.mp hdigit)
    | some digit => rw [steps_cons hdigit, List.length_cons, ih hcs, List.length_cons]

/-- The digits of a number that there is room for are taken, whatever follows it. -/
theorem takes_steps_encodeNat {rest : List Char} (hrest : ∀ s ∈ steps {} rest, s.1.Takes s.2) :
    ∀ {fuel n : Nat} {p : Partial}, n ≤ fuel → p.HasRoom n →
      ∀ s ∈ steps p (encodeNat fuel n ++ rest), s.1.Takes s.2
  | 0, n, p, hn, hp => by
    obtain rfl : n = 0 := by omega
    rw [encodeNat, List.singleton_append, steps_cons (digit?_letter 0 (by decide))]
    exact List.forall_mem_cons.mpr ⟨hp.takes (le_refl 0), hrest⟩
  | fuel + 1, n, p, hn, hp => by
    rw [encodeNat]
    by_cases hlast : n < 32
    · rw [if_pos hlast, List.singleton_append, steps_cons (digit?_letter n (by omega)),
        Partial.next_of_last hlast]
      exact List.forall_mem_cons.mpr ⟨hp.takes (Nat.mod_le n 32), hrest⟩
    · rw [if_neg hlast, List.cons_append, steps_cons (digit?_letter _ (by omega))]
      have hnext := hp.next (show 32 ≤ n by omega)
      exact List.forall_mem_cons.mpr ⟨hp.takes (by omega),
        takes_steps_encodeNat hrest (by omega) hnext⟩

theorem takes_steps_flatMap {vs : List Int} (h : ∀ v ∈ vs, v.natAbs < 2 ^ 63) :
    ∀ s ∈ steps {} (vs.flatMap encode), s.1.Takes s.2 := by
  induction vs with
  | nil => simp [steps]
  | cons v vs ih =>
    obtain ⟨hv, hvs⟩ := List.forall_mem_cons.mp h
    rw [List.flatMap_cons, encode]
    exact takes_steps_encodeNat (ih hvs) (le_refl _) (Partial.hasRoom_start (signed_lt hv))

/-- The magnitude of a number that a word stands for fits into a signed word, and so does its
negative. -/
theorem natAbs_unsigned_lt (word : UInt64) : (unsigned word).natAbs < 2 ^ 63 := by
  have hword := word.toNat_lt
  rw [unsigned_eq, ofSigned]
  split <;> omega

theorem decode_flatMap {vs : List Int} (h : ∀ v ∈ vs, v.natAbs < 2 ^ 63) :
    decode (vs.flatMap encode) = some vs := by
  induction vs with
  | nil => rfl
  | cons v vs ih =>
    obtain ⟨hv, hvs⟩ := List.forall_mem_cons.mp h
    have hrest : decodeFrom {} (vs.flatMap encode) = some vs := ih hvs
    rw [decode, List.flatMap_cons, decodeFrom_encode hv, hrest]
    rfl

/-! ### Beginnings of a number -/

theorem length_encodeNat_le : ∀ {fuel n k : Nat}, n < 32 ^ (k + 1) →
    (encodeNat fuel n).length ≤ k + 1
  | 0, n, k, _ => by simp [encodeNat]
  | fuel + 1, n, k, h => by
    rw [encodeNat]
    by_cases hlast : n < 32
    · simp [hlast]
    · rw [if_neg hlast, List.length_cons]
      cases k with
      | zero => simp at h; omega
      | succ k =>
        have hdiv : n / 32 < 32 ^ (k + 1) := by
          rw [pow_succ] at h
          omega
        have hrest : (encodeNat fuel (n / 32)).length ≤ k + 1 := length_encodeNat_le hdiv
        omega

/-- No beginning of a number of 64 bits is read, but for the whole of it. -/
theorem decode_of_isPrefix {v : Int} (hv : v.natAbs < 2 ^ 63) {cs : List Char}
    (hcs : cs <+: encode v) (hne : cs ≠ []) (hall : cs ≠ encode v) : decode cs = none := by
  cases hread : decode cs with
  | none => rfl
  | some vs =>
    exfalso
    have hlength : (encode v).length ≤ 13 :=
      length_encodeNat_le (lt_trans (signed_lt hv) (by decide))
    obtain ⟨ns, hns⟩ := exists_numbers_of_decode
      (lt_of_le_of_lt hcs.length_le (lt_of_le_of_lt hlength (by decide))) hread
    cases hns with
    | nil => exact hne rfl
    | @cons number rest n ns hnumber _ =>
      -- the first number of the beginning is all that was written
      obtain ⟨behind, hbehind⟩ := hcs
      have heq : number ++ (rest ++ behind) = encode v ++ [] := by
        rw [List.append_nil, ← hbehind, List.append_assoc]
      obtain ⟨-, hnil⟩ := hnumber.unique (digits_encodeNat (le_refl (signed v))) heq
      obtain ⟨-, rfl⟩ := List.append_eq_nil_iff.mp hnil
      exact hall (by rw [← hbehind, List.append_nil])

/-- Signed words of 64 bits, all but the smallest one, are read back as they were written, however
many stand one behind the other. Nothing is lost on the way, in writing or in reading, and what is
written of one number is not read before its end. -/
theorem decode_flatMap_encode :
    (∀ vs : List Int64, (∀ v ∈ vs, v ≠ Int64.minValue) →
      let text := vs.flatMap fun v => encode v.toInt
      decode text = some (vs.map (·.toInt)) ∧
        (steps {} text).length = text.length ∧ ∀ s ∈ steps {} text, s.1.Takes s.2) ∧
    (∀ word, (unsigned word).natAbs < 2 ^ 63) ∧
    ∀ v : Int64, v ≠ Int64.minValue →
      ((-v).toInt = -v.toInt ∧ (signedWord v).toNat = signed v.toInt ∧
        encodeWord (signedWord v) = encode v.toInt) ∧
      encode v.toInt ≠ [] ∧ (∀ c ∈ encode v.toInt, c ∈ letters) ∧
      ∀ cs, cs <+: encode v.toInt → cs ≠ [] → cs ≠ encode v.toInt → decode cs = none := by
  refine ⟨fun vs hvs => ?_, natAbs_unsigned_lt, fun v hv => ⟨⟨toInt_neg_of_ne hv,
    toNat_signedWord hv, encodeWord_signedWord hv⟩, encode_ne_nil _,
    fun c hc => mem_letters_of_mem_encodeNat hc,
    fun cs => decode_of_isPrefix (natAbs_toInt_lt hv)⟩⟩
  intro text
  have htext : text = (vs.map (·.toInt)).flatMap encode := by
    rw [List.flatMap_map]
  have hsmall : ∀ n ∈ vs.map (·.toInt), n.natAbs < 2 ^ 63 := by
    intro n hn
    obtain ⟨v, hv, rfl⟩ := List.mem_map.mp hn
    exact natAbs_toInt_lt (hvs v hv)
  have hletters : ∀ c ∈ text, c ∈ letters := by
    intro c hc
    obtain ⟨v, -, hc⟩ := List.mem_flatMap.mp hc
    exact mem_letters_of_mem_encodeNat hc
  refine ⟨?_, length_steps hletters {}, ?_⟩
  · rw [htext]
    exact decode_flatMap hsmall
  · rw [htext]
    exact takes_steps_flatMap hsmall

/-- The greatest word and its negative are next to the one that is left out. -/
theorem decode_flatMap_encode_extremes :
    decode ([Int64.maxValue, -Int64.maxValue, -17].flatMap fun v => encode v.toInt) =
        some [2 ^ 63 - 1, -(2 ^ 63 - 1), -17] ∧
      encode (2 ^ 63 - 1) = "+///////////P".toList ∧ decode "+///////////".toList = none := by
  have hne : ∀ v ∈ [Int64.maxValue, -Int64.maxValue, -17], v ≠ Int64.minValue := by
    rw [List.forall_mem_cons, List.forall_mem_cons, List.forall_mem_singleton]
    decide
  have hmax : encode Int64.maxValue.toInt = "+///////////P".toList := by decide +kernel
  obtain ⟨hlists, -, hwords⟩ := decode_flatMap_encode
  obtain ⟨-, -, -, hbeginnings⟩ := hwords Int64.maxValue (by decide)
  refine ⟨(hlists _ hne).1, hmax, hbeginnings _ ?_ (by decide) ?_⟩
  · rw [hmax]
    exact ⟨['P'], by decide⟩
  · rw [hmax]
    decide

end Phrasebook.Mapping.Vlq
