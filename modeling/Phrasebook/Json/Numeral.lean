import Phrasebook.Number.Shortest

/-!
# Numbers in JSON texts

A number is a whole one when it is written without fraction and exponent and fits into 64 bits.
Any other one is read as a double: the digits that fit into 64 bits first, then the power of ten,
each step rounded.
-/

namespace Phrasebook.Json

/-- The parts of a number as they are written. -/
structure NumeralText where
  isNegative : Bool
  whole : List Char
  fraction : List Char := []
  /-- Whether the exponent is negative, and its digits. -/
  power : Option (Bool × List Char) := none

inductive Number where
  | whole (i : Int)
  | double (isNegative : Bool) (x : Binary64)

def digitValue (c : Char) : Nat := c.toNat - 48

def maxWhole : Nat := 0xFFFFFFFFFFFFFFFF

/-- Takes digits as long as the number fits into 64 bits, and counts those that are left. -/
def absorb (n : Nat) : List Char → Nat × Nat
  | [] => (n, 0)
  | c :: cs =>
    let m := n * 10 + digitValue c
    if m ≤ maxWhole then absorb m cs else (n, cs.length + 1)

def maxPower : Nat := 0x7FFFFFFF

/-- The value of an exponent, or the number of digits after which it is too large. -/
def powerValue (n read : Nat) : List Char → Except Nat Nat
  | [] => .ok n
  | c :: cs =>
    let m := n * 10 + digitValue c
    if m ≤ maxPower then powerValue m (read + 1) cs else .error (read + 1)

namespace Number

def quotient (x : Binary64) (num den : Nat) : Option Binary64 :=
  let (n, d) := Binary64.scale x.mantissa x.exponent
  Binary64.nearest (n * num) (d * den)

/-- The nearest double to a power of ten, as numerator and denominator. -/
def tenTo (e : Nat) : Nat × Nat :=
  match Binary64.nearest (Nat.pow 10 e) 1 with
  | some x => Binary64.scale x.mantissa x.exponent
  | none => (1, 0)

/-- The largest power of ten that is a double. -/
def maxTen : Nat := 308

/-- A double times a power of ten; `none` when it is too large. A very small power takes up to `n`
steps. -/
def timesTen : Nat → Binary64 → Int → Option Binary64
  | 0, x, _ => some x
  | n + 1, x, e =>
    if e.natAbs ≤ maxTen then
      let (num, den) := tenTo e.natAbs
      if 0 ≤ e then quotient x num den else quotient x den num
    else if x.mantissa = 0 then some x
    else if 0 ≤ e then none
    else
      let (num, den) := tenTo maxTen
      (quotient x den num).bind fun x => timesTen n x (e + maxTen)

def ofParts (isNegative : Bool) (significand : Nat) (e : Int) : Option Number := do
  let x ← Binary64.nearest significand 1
  return .double isNegative (← timesTen 4 x e)

/-- The number that a text means, or the number of digits of the exponent after which it is too
large; `none` when that shows only at its end. -/
def ofText (t : NumeralText) : Except (Option Nat) Number := do
  let (n, dropped) := absorb 0 t.whole
  if t.fraction = [] ∧ t.power = none ∧ dropped = 0 then
    if t.isNegative then
      if n = 0 ∨ 0x8000000000000000 < n then return ← finish n 0 else return .whole (-(n : Int))
    return .whole n
  let (m, left) := absorb n t.fraction
  let e : Int := (dropped : Int) - ((t.fraction.length - left : Nat) : Int)
  match t.power with
  | none => finish m e
  | some (isNegative, digits) =>
    match powerValue 0 0 digits with
    | .ok p => finish m (if isNegative then e - (p : Int) else e + (p : Int))
    | .error read => if m = 0 ∨ isNegative then finish 0 0 else .error (some read)
where
  finish (n : Nat) (e : Int) : Except (Option Nat) Number :=
    match ofParts t.isNegative n e with
    | some x => .ok x
    | none => .error none

/-- A double written out: positional from five zeros behind the point to sixteen digits in front of
it, else with an exponent. -/
def doubleText (isNegative : Bool) (x : Binary64) : String :=
  let d := Decimal.shortest .even x
  let digits := Nat.toDigits 10 d.digits
  let point : Int := (digits.length : Int) + d.exponent
  let body :=
    if d.digits = 0 then ['0', '.', '0']
    else if 0 ≤ d.exponent ∧ point ≤ 16 then d.positional ++ ['.', '0']
    else if -5 < point ∧ point ≤ 16 then d.positional
    else
      let e := point - 1
      let sign := if 0 ≤ e then '+' else '-'
      digits.take 1 ++ (if digits.length = 1 then [] else '.' :: digits.drop 1)
        ++ 'e' :: sign :: Nat.toDigits 10 e.natAbs
  String.ofList (if isNegative then '-' :: body else body)

end Number

end Phrasebook.Json
