import Phrasebook.Text.Alphabet

/-!
# Letters, numbers and the characters of identifiers

Alphabetic and alphanumeric characters are nearly the characters of identifiers. What is missing
are numbers that are no digits, letters in circles and squares, the vertical tilde (`isStray`), and
at the beginning of an identifier the alphabetic marks (`isMark`).

The tables are compared as numbers in binary, whose ones stand at the places in the table: then all
characters are compared in a few operations on numbers.
-/

namespace Phrasebook.Text

/-! ### Tables as numbers -/

/-- The number with ones at the places in the ranges. -/
def maskOf (ranges : List (Nat × Nat)) : Nat :=
  ranges.foldr (fun r mask => (1 <<< (r.2 + 1 - r.1) - 1) <<< r.1 ||| mask) 0

theorem testBit_maskOf (n : Nat) (ranges : List (Nat × Nat)) :
    (maskOf ranges).testBit n = inRanges n ranges := by
  induction ranges with
  | nil => exact Nat.zero_testBit n
  | cons r ranges ih =>
    have hbit : ((1 <<< (r.2 + 1 - r.1) - 1) <<< r.1).testBit n = decide (r.1 ≤ n ∧ n ≤ r.2) := by
      rw [Nat.testBit_shiftLeft, Nat.one_shiftLeft, Nat.testBit_two_pow_sub_one, ← Bool.decide_and]
      exact decide_eq_decide.mpr (by omega)
    change (_ ||| maskOf ranges).testBit n = _
    rw [Nat.testBit_or, ih, hbit]
    simp [inRanges]

/-- The ones of `a` that are none of `b`. -/
def without (a b : Nat) : Nat := a ^^^ (a &&& b)

theorem testBit_without (a b n : Nat) :
    (without a b).testBit n = (a.testBit n && !b.testBit n) := by
  rw [without, Nat.testBit_xor, Nat.testBit_and]
  cases a.testBit n <;> cases b.testBit n <;> rfl

/-- Where the ones of `a` are, exactly one of `b` and `c` has ones. -/
theorem testBit_eq_not {a b c n : Nat} (h : a &&& (b ^^^ c) = a) (hn : a.testBit n = true) :
    b.testBit n = !c.testBit n := by
  have hbit := congrArg (Nat.testBit · n) h
  simp only [Nat.testBit_and, Nat.testBit_xor, hn, Bool.true_and] at hbit
  cases hb : b.testBit n <;> simpa [hb] using hbit

/-! ### Characters that belong to no identifier -/

/-- Latin letters in circles, squares and parentheses. -/
def enclosedLetterRanges : List (Nat × Nat) :=
  [(0x24b6, 0x24e9), (0x1f130, 0x1f149), (0x1f150, 0x1f169), (0x1f170, 0x1f189)]

/-- Enclosed letters, numbers that are no digits, and the vertical tilde. -/
def isStray (c : Char) : Bool :=
  inRanges c.toNat enclosedLetterRanges
    || (inRanges c.toNat otherNumberRanges && !inRanges c.toNat otherPartRanges)
    || c.toNat == 0x2e2f

/-- Marks that may only stand behind another character. -/
def isMark (c : Char) : Bool :=
  inRanges c.toNat markRanges && !inRanges c.toNat otherStartRanges

def tildeMask : Nat := maskOf [(0x2e2f, 0x2e2f)]

def alphabeticMask : Nat := maskOf letterRanges ||| maskOf otherAlphabeticRanges

def alphanumericMask : Nat :=
  alphabeticMask ||| maskOf decimalRanges ||| maskOf otherNumberRanges

def startMask : Nat := without (maskOf letterRanges) tildeMask ||| maskOf otherStartRanges

def partMask : Nat :=
  startMask ||| without (maskOf markRanges) (maskOf enclosingMarkRanges) ||| maskOf decimalRanges
    ||| maskOf connectorRanges ||| maskOf otherPartRanges

def strayMask : Nat :=
  maskOf enclosedLetterRanges ||| without (maskOf otherNumberRanges) (maskOf otherPartRanges)
    ||| tildeMask

def markMask : Nat := without (maskOf markRanges) (maskOf otherStartRanges)

section

variable {c : Char}

theorem testBit_tildeMask (n : Nat) : tildeMask.testBit n = (n == 0x2e2f) := by
  have hrange : inRanges n [(0x2e2f, 0x2e2f)] = decide (0x2e2f ≤ n ∧ n ≤ 0x2e2f) := by
    simp [inRanges]
  rw [tildeMask, testBit_maskOf, hrange, Bool.eq_iff_iff, decide_eq_true_iff, beq_iff_eq]
  omega

theorem testBit_strayMask : strayMask.testBit c.toNat = isStray c := by
  simp [strayMask, isStray, testBit_maskOf, testBit_without, testBit_tildeMask]

theorem testBit_markMask : markMask.testBit c.toNat = isMark c := by
  simp [markMask, isMark, testBit_maskOf, testBit_without]

theorem testBit_alphabeticMask (hc : isAscii c = false) :
    alphabeticMask.testBit c.toNat = isAlphabetic c := by
  simp [alphabeticMask, isAlphabetic, testBit_maskOf, hc]

theorem testBit_alphanumericMask (hc : isAscii c = false) :
    alphanumericMask.testBit c.toNat = isAlphanumeric c := by
  simp [alphanumericMask, isAlphanumeric, testBit_maskOf, testBit_alphabeticMask hc, hc]

theorem testBit_startMask (hc : isAscii c = false) :
    startMask.testBit c.toNat = isIdentifierStart c := by
  simp [startMask, isIdentifierStart, testBit_maskOf, testBit_without, testBit_tildeMask, hc, bne]

theorem testBit_partMask (hc : isAscii c = false) :
    partMask.testBit c.toNat = isIdentifierPart c := by
  simp [partMask, isIdentifierPart, testBit_maskOf, testBit_without, testBit_startMask hc, hc]

/-- No ASCII character is stray or a mark. -/
theorem not_isStray_of_isAscii (hc : isAscii c = true) : isStray c = false ∧ isMark c = false := by
  have hmasks : (strayMask ||| markMask) &&& maskOf [(0, 0x7f)] = 0 := by decide +kernel
  have hascii : inRanges c.toNat [(0, 0x7f)] = true := by
    have hlt : c.toNat < 0x80 := of_decide_eq_true hc
    simpa [inRanges] using Nat.le_of_lt_succ hlt
  have hbit := congrArg (Nat.testBit · c.toNat) hmasks
  simpa only [Nat.testBit_and, Nat.testBit_or, testBit_strayMask, testBit_markMask, testBit_maskOf,
    hascii, Bool.and_true, Nat.zero_testBit, Bool.or_eq_false_iff] using hbit

theorem isIdentifierPart_eq (h : isAlphanumeric c = true) : isIdentifierPart c = !isStray c := by
  cases hc : isAscii c with
  | true =>
    rw [(not_isStray_of_isAscii hc).1]
    rw [isAlphanumeric, hc, if_pos rfl] at h
    rw [isIdentifierPart, hc, if_pos rfl, h]
    rfl
  | false =>
    have hmasks : alphanumericMask &&& (partMask ^^^ strayMask) = alphanumericMask := by
      decide +kernel
    rw [← testBit_alphanumericMask hc] at h
    rw [← testBit_partMask hc, ← testBit_strayMask]
    exact testBit_eq_not hmasks h

theorem isIdentifierStart_eq (h : isAlphabetic c = true) :
    isIdentifierStart c = !(isStray c || isMark c) := by
  cases hc : isAscii c with
  | true =>
    obtain ⟨hstray, hmark⟩ := not_isStray_of_isAscii hc
    rw [isAlphabetic, hc, if_pos rfl] at h
    rw [isIdentifierStart, hc, if_pos rfl, h, hstray, hmark]
    rfl
  | false =>
    have hmasks : alphabeticMask &&& (startMask ^^^ (strayMask ||| markMask)) = alphabeticMask := by
      decide +kernel
    rw [← testBit_alphabeticMask hc] at h
    rw [← testBit_startMask hc, ← testBit_strayMask, ← testBit_markMask, ← Nat.testBit_or]
    exact testBit_eq_not hmasks h

end

end Phrasebook.Text
