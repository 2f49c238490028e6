/-!
# Line ends in scripts

Four characters end a line of a script: the two that do so everywhere, and the separators of lines
and paragraphs.
-/

namespace Phrasebook.Script

def isLineEnd (c : Char) : Bool :=
  c == '\n' || c == '\r' || c.toNat == 0x2028 || c.toNat == 0x2029

end Phrasebook.Script
