/-!
# Base64 variable-length numbers

A number is its magnitude doubled, plus one when it is negative, written in digits of five bits,
the least significant first. A digit is a base64 letter; its sixth bit says that more follow.
-/

namespace Phrasebook.Mapping.Vlq

def letters : List Char :=
  "ABCDEFGHIJKLMNOPQRSTUVWXYZabcdefghijklmnopqrstuvwxyz0123456789+/".toList

def letter (digit : Nat) : Char := letters.getD digit 'A'

def digit? (c : Char) : Option Nat := letters.idxOf? c

/-- The digits of `n`, at most `fuel + 1` of them. -/
def encodeNat : Nat → Nat → List Char
  | 0, n => [letter (n % 32)]
  | fuel + 1, n =>
    if n < 32 then [letter n] else letter (32 + n % 32) :: encodeNat fuel (n / 32)

def signed (v : Int) : Nat := if v < 0 then 2 * v.natAbs + 1 else 2 * v.natAbs

def encode (v : Int) : List Char := encodeNat (signed v) (signed v)

/-- A number being read: its bits so far and the place of the next digit. Digits behind the last
place of the word begin again at the first one. -/
structure Partial where
  value : UInt64 := 0
  shift : UInt32 := 0

/-- The number that a word stands for. -/
def unsigned (value : UInt64) : Int :=
  let magnitude : Int := (value >>> 1).toNat
  if value &&& 1 = 1 then -magnitude else magnitude

/-- Reads numbers to the end of the text; the last one has to be complete. -/
def decodeFrom (p : Partial) : List Char → Option (List Int)
  | [] => if p.shift = 0 then some [] else none
  | c :: cs => do
    let digit ← digit? c
    let value := p.value ||| (UInt64.ofNat (digit % 32) <<< p.shift.toUInt64)
    if 32 ≤ digit then decodeFrom ⟨value, p.shift + 5⟩ cs
    else (decodeFrom {} cs).map (unsigned value :: ·)

def decode (cs : List Char) : Option (List Int) := decodeFrom {} cs

end Phrasebook.Mapping.Vlq
