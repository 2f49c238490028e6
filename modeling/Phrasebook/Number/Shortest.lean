import Phrasebook.Number.Binary64

/-!
# The fewest digits that read back

`shortest` gives the decimal number with the fewest digits among those that round to a double, and
of several the one nearest to it; where two are equally near, a `Tie` says which. `positional`
writes it without an exponent.
-/

namespace Phrasebook

/-- `digits * 10 ^ exponent` -/
structure Decimal where
  digits : Nat
  exponent : Int
deriving DecidableEq, Repr

/-- Which of two neighbours is taken for a number in the middle between them. -/
inductive Tie where
  | up
  | even
deriving DecidableEq, Repr

/-- Whether the upper one is taken when the lower one is `below`. -/
def Tie.goesUp : Tie → (below : Nat) → Bool
  | up, _ => true
  | even, below => below % 2 = 1

namespace Decimal

def pow10 (e : Int) : Nat := Nat.pow 10 e.toNat

/-- A double and the ends of the interval of numbers that round to it, times `4 * unit`. -/
structure Target where
  lower : Nat
  value : Nat
  upper : Nat
  unit : Nat
  /-- The ends belong to the interval. -/
  closed : Bool

def Target.of (x : Binary64) : Target :=
  let (n, d) := Binary64.scale x.mantissa x.exponent
  let (step, _) := Binary64.scale 1 (max x.exponent 0)
  let atEdge := x.mantissa = Binary64.minMantissa ∧ Binary64.minExponent < x.exponent
  ⟨4 * n - (if atEdge then step else 2 * step), 4 * n, 4 * n + 2 * step, 4 * d,
    x.mantissa % 2 = 0⟩

/-- The number of the grid with spacing `10 ^ e` that is nearest to the target and in its
interval. -/
def Target.onGrid (t : Target) (tie : Tie) (e : Int) : Option Decimal :=
  let up := pow10 (-e)
  let spacing := t.unit * pow10 e
  let inside := fun c : Nat =>
    if t.closed then t.lower * up ≤ c * spacing ∧ c * spacing ≤ t.upper * up
    else t.lower * up < c * spacing ∧ c * spacing < t.upper * up
  let below := t.value * up / spacing
  let rest := t.value * up - below * spacing
  let above := below + 1
  let goesUp := spacing < 2 * rest || (2 * rest == spacing && tie.goesUp below)
  let first := if goesUp then above else below
  let second := if goesUp then below else above
  if inside first then some ⟨first, e⟩
  else if inside second then some ⟨second, e⟩
  else none

/-- The first grid from the spacing `10 ^ e` down that has a number in the interval. -/
def Target.search (t : Target) (tie : Tie) : Nat → Int → Decimal
  | 0, e => ⟨t.value * pow10 (-e) / (t.unit * pow10 e), e⟩
  | n + 1, e =>
    match t.onGrid tie e with
    | some d => d
    | none => t.search tie n (e - 1)

/-- An exponent of ten that is too large for a grid with a number in the interval, and at most
one place too large for one with a digit. -/
def Target.topExponent (t : Target) : Int :=
  let whole := t.value / t.unit
  if whole = 0 then
    let zeros : Nat := Nat.log2 (t.unit / t.value) * 30102 / 100000
    1 - (zeros : Int)
  else (Nat.toDigits 10 whole).length

def shortest (tie : Tie) (x : Binary64) : Decimal :=
  if x.mantissa = 0 then ⟨0, 0⟩
  else
    let t := Target.of x
    t.search tie 20 t.topExponent

/-- Without an exponent and without zeros that say nothing. -/
def positional (d : Decimal) : List Char :=
  let digits := Nat.toDigits 10 d.digits
  if 0 ≤ d.exponent then
    if d.digits = 0 then ['0'] else digits ++ List.replicate d.exponent.toNat '0'
  else
    let places := (-d.exponent).toNat
    let padded := List.replicate (places + 1 - digits.length) '0' ++ digits
    padded.take (padded.length - places) ++ '.' :: padded.drop (padded.length - places)

end Decimal

end Phrasebook
