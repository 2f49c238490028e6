/-!
# Texts from 16-bit units

A text may be given by numbers of characters among which stand surrogates. A high surrogate
followed by a low one is one character; a surrogate left alone is no text.
-/

namespace Phrasebook.Text

def isHighSurrogate (n : Nat) : Bool := 0xd800 ≤ n && n < 0xdc00

def isLowSurrogate (n : Nat) : Bool := 0xdc00 ≤ n && n < 0xe000

def joinPair (high low : Nat) : Nat := 0x10000 + (high - 0xd800) * 0x400 + (low - 0xdc00)

/-- The text of the numbers; `none` when a surrogate stands alone. -/
def ofUnits : List Nat → Option (List Char)
  | [] => some []
  | high :: low :: rest =>
    if isHighSurrogate high then
      if isLowSurrogate low then (ofUnits rest).map (Char.ofNat (joinPair high low) :: ·) else none
    else if isLowSurrogate high then none
    else (ofUnits (low :: rest)).map (Char.ofNat high :: ·)
  | [n] => if isHighSurrogate n || isLowSurrogate n then none else some [Char.ofNat n]

end Phrasebook.Text
