import Phrasebook.Script.Tree

/-!
# Texts of expressions

`foldText` gives the text that an expression stands for when it is known without running the
script: a string, a template without substitutions, or a sum of these in which no sum stands on
the right. Parentheses change nothing.
-/

namespace Phrasebook.Script

/-- The text of a single literal. -/
def literalText : Node → Option String
  | .mk (.string value) _ _ _ => value
  | .mk (.template value) _ _ [] => value
  | .mk .paren _ _ [e] => literalText e
  | _ => none

def foldText : Node → Option String
  | .mk .paren _ _ [e] => foldText e
  | .mk (.binary true) _ _ [left, right] => do
    let a ← foldText left
    let b ← literalText right
    return a ++ b
  | e => literalText e

end Phrasebook.Script
