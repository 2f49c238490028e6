import Phrasebook.Text.Utf8

/-!
# Positions in text

A position is a line and a column in 16-bit units, both from zero. Only a line feed ends a line.
-/

namespace Phrasebook

structure Position where
  line : Nat := 0
  col : Nat := 0
deriving DecidableEq, Repr

namespace Position

def advanceChar (p : Position) (c : Char) : Position :=
  if c = '\n' then ⟨p.line + 1, 0⟩ else ⟨p.line, p.col + Text.units16 c⟩

def advance (p : Position) (cs : List Char) : Position := cs.foldl advanceChar p

end Position

end Phrasebook
