import Phrasebook.Proofs.Script.Gap
import Phrasebook.Proofs.Script.Literal
import Phrasebook.Script.Fold

/-!
# How expressions with a known text are written

An expression with a known text is a literal, such an expression in parentheses, or a sum of such
expressions, with gaps between the tokens. `Spelling` are the texts that write one, with the text
that it stands for.
-/

namespace Phrasebook.Script

open Text (byteLength)

/-- The text of an expression in which sums are allowed, or of a literal. -/
def textOf (sums : Bool) : Node → Option String :=
  if sums then foldText else literalText

/-- The characters `cs` write an expression with the text `text`; with `sums` it may be a sum. As
in `LiteralText` the line end `follow` follows when the last string has no closing quote. -/
inductive Spelling : Bool → Option Char → List Char → String → Prop
  | literal {sums : Bool} {follow : Option Char} {cs : List Char} {kind : Kind} {text : String}
      (h : LiteralText follow cs kind text) : Spelling sums follow cs text
  /-- Behind the expression in parentheses may stand a comma. -/
  | paren {sums : Bool} {follow : Option Char} {front cs back comma : List Char} {text : String}
      (hfront : GapText false front) (hcs : Spelling sums follow cs text)
      (hback : GapText false back) (hfollow : ∀ x ∈ follow, back.head? = some x)
      (hcomma : comma = [] ∨ ∃ gap, GapText false gap ∧ comma = ',' :: gap) :
      Spelling sums none ('(' :: (front ++ (cs ++ (back ++ (comma ++ [')']))))) text
  | sum {follow follow' : Option Char} {left back front right : List Char} {a b : String}
      (hleft : Spelling true follow left a) (hback : GapText false back)
      (hfollow : ∀ x ∈ follow, back.head? = some x) (hfront : GapText false front)
      (hright : Spelling false follow' right b) :
      Spelling true follow' (left ++ (back ++ '+' :: (front ++ right))) (a ++ b)

namespace Spelling

variable {sums : Bool} {follow : Option Char} {cs : List Char} {text : String}

/-- Characters with which an expression with a known text begins. -/
def begins (c : Char) : Bool := ['"', '\'', '\x60', '('].contains c

theorem exists_cons (h : Spelling sums follow cs text) :
    ∃ x xs, cs = x :: xs ∧ begins x = true := by
  induction h with
  | literal h =>
    obtain ⟨x, xs, rfl, rfl | rfl | rfl⟩ := h.exists_cons <;> exact ⟨_, xs, rfl, rfl⟩
  | paren => exact ⟨_, _, rfl, rfl⟩
  | sum _ _ _ _ _ ih =>
    obtain ⟨x, xs, rfl, hx⟩ := ih
    exact ⟨x, _, rfl, hx⟩

theorem isLineEnd_follow (h : Spelling sums follow cs text) :
    ∀ x ∈ follow, x = '\n' ∨ x = '\r' := by
  induction h with
  | literal h => exact h.isLineEnd_follow
  | paren => simp
  | sum _ _ _ _ _ _ ih => exact ih

end Spelling

end Phrasebook.Script
