/-!
# Doubles

A finite double that is not negative is `mantissa * 2 ^ exponent` with a mantissa of at most 53
bits and an exponent of at least -1074. `nearest` rounds a fraction to a double, a tie to the even
mantissa.
-/

namespace Phrasebook

structure Binary64 where
  mantissa : Nat
  exponent : Int
deriving DecidableEq, Repr

namespace Binary64

def minExponent : Int := -1074

def maxExponent : Int := 971

/-- The least mantissa of 53 bits. -/
def minMantissa : Nat := 0x10000000000000

/-- `n * 2 ^ e` as numerator and denominator. -/
def scale (n : Nat) (e : Int) : Nat × Nat :=
  if 0 ≤ e then (n * Nat.pow 2 e.toNat, 1) else (n, Nat.pow 2 (-e).toNat)

/-- `num / den` rounded to a whole number, a tie to the even one. -/
def roundHalfEven (num den : Nat) : Nat :=
  let q := num / den
  let r := num % den
  if 2 * r < den then q else if den < 2 * r then q + 1 else q + q % 2

/-- The largest exponent that leaves a quotient of at least 53 bits, or one less. -/
def exponentFor (num den : Nat) : Int :=
  let guess : Int := (Nat.log2 num : Int) - (Nat.log2 den : Int) - 52
  let (a, b) := scale 1 guess
  let guess := if num * b < minMantissa * (den * a) then guess - 1 else guess
  max guess minExponent

/-- The double nearest to `num / den`; `none` when it is too large for one. -/
def nearest (num den : Nat) : Option Binary64 :=
  if num = 0 then some ⟨0, minExponent⟩
  else
    let e := exponentFor num den
    let (a, b) := scale 1 e
    let m := roundHalfEven (num * b) (den * a)
    let rounded : Binary64 := if m = 2 * minMantissa then ⟨minMantissa, e + 1⟩ else ⟨m, e⟩
    if maxExponent < rounded.exponent then none else some rounded

end Binary64

end Phrasebook
