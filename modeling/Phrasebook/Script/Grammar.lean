import Phrasebook.Script.Grammar.Item

/-!
# The grammar as a whole

Each rule is given the rules that it calls. `rules n` lets them call each other at most `n` deep,
which for a large enough `n` is no bound at all: every text nests its parts less deep than it is
long, up to a constant factor.
-/

namespace Phrasebook.Script

open Grammar

/-- The rules of the grammar, calling each other up to a depth. -/
def rules : Nat → Rules
  | 0 =>
    let stop : Parser Node := Parser.unexpected
    ⟨stop, stop, stop, stop, fun _ _ => stop, fun _ _ => stop, stop, stop, stop, stop,
      fun _ => stop, stop, stop, stop⟩
  | n + 1 => {
    expression := fun m l => expression (rules n) m l
    assignment := fun m l => assignment (rules n) m l
    unary := fun m l => unary (rules n) m l
    binary := fun m l => binary (rules n) m l
    finishAssignment := fun lo target m l => finishAssignment (rules n) lo target m l
    operators := fun left min m l => operators (rules n) left min m l
    construction := fun m l => construction (rules n) m l
    leftHandSide := fun m l => leftHandSide (rules n) m l
    type := fun m l => type (rules n) m l
    pattern := fun m l => pattern (rules n) m l
    statement := fun isDeclaration m l => statement (rules n) isDeclaration m l
    block := fun m l => block (rules n) m l
    item := fun m l => moduleItem (rules n) m l
    element := fun m l => element (rules n) m l }

/-- A depth that a text of `size` bytes cannot reach. -/
def depthFor (size : Nat) : Nat := 64 * (size + 2)

end Phrasebook.Script
