import Phrasebook.Number.Shortest
import Phrasebook.Script.Escape

/-!
# Numerals

The value of a number in a script, written as a key: the double that it stands for with the fewest
digits and without an exponent. Numerals come without separators.
-/

namespace Phrasebook.Script

def digitsValue (base : Nat) (cs : List Char) : Nat :=
  cs.foldl (fun n c => base * n + (Text.hexValue? c).getD 0) 0

/-- The base and the digits of a whole number that is not written in decimal digits. -/
def radix? : List Char → Option (Nat × List Char)
  | '0' :: mark :: rest =>
    if mark == 'x' || mark == 'X' then some (16, rest)
    else if mark == 'o' || mark == 'O' then some (8, rest)
    else if mark == 'b' || mark == 'B' then some (2, rest)
    else if (mark :: rest).all fun c => (Text.octalValue? c).isSome then some (8, mark :: rest)
    else none
  | _ => none

/-- The digits of a decimal numeral as a whole number, and its exponent of ten. -/
def decimalParts (cs : List Char) : Nat × Int :=
  let isMark := fun c : Char => c == 'e' || c == 'E'
  let mantissa := cs.takeWhile (!isMark ·)
  let power := (cs.dropWhile (!isMark ·)).drop 1
  let whole := mantissa.takeWhile (· != '.')
  let fraction := (mantissa.dropWhile (· != '.')).drop 1
  let exponent : Int :=
    match power with
    | '-' :: rest => -(digitsValue 10 rest : Int)
    | '+' :: rest => digitsValue 10 rest
    | rest => digitsValue 10 rest
  (digitsValue 10 (whole ++ fraction), exponent - fraction.length)

/-- Beyond these exponents a number of `n` digits is too large or too small for a double. -/
def clampExponent (n : Nat) (e : Int) : Int := max (-(n : Int) - 400) (min e 400)

/-- A double with one digit more behind it. -/
def withDigit (base : Nat) (x : Binary64) (c : Char) : Option Binary64 :=
  let (n, d) := Binary64.scale x.mantissa x.exponent
  Binary64.nearest (base * n + (Text.hexValue? c).getD 0 * d) d

/-- The double that a numeral stands for; `none` when it is too large. One that is not written in
decimal digits is rounded after every digit. -/
def numeralValue (cs : List Char) : Option Binary64 :=
  match radix? cs with
  | some (base, digits) => digits.foldlM (withDigit base) ⟨0, Binary64.minExponent⟩
  | none =>
    let (n, e) := decimalParts cs
    let e := clampExponent cs.length e
    Binary64.nearest (n * Decimal.pow10 e) (Decimal.pow10 (-e))

def numeralText (cs : List Char) : List Char :=
  match numeralValue cs with
  | some x => (Decimal.shortest .up x).positional
  | none => "inf".toList

/-- The decimal digits of a big integer, which ends with the letter n. -/
def bigIntText (cs : List Char) : List Char :=
  let cs := cs.dropLast
  match radix? cs with
  | some (base, digits) => Nat.toDigits 10 (digitsValue base digits)
  | none => Nat.toDigits 10 (digitsValue 10 cs)

end Phrasebook.Script
