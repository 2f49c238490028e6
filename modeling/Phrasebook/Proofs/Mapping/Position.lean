import Phrasebook.Mapping.Position

/-!
# Positions that move on

Text moves a position forward, never back (`le_advance`). `Fits` positions are those of files with
less than `2 ^ 32` lines and columns.
-/

namespace Phrasebook.Position

def Fits (p : Position) : Prop := p.line < 0x100000000 ∧ p.col < 0x100000000

instance (p : Position) : Decidable p.Fits := inferInstanceAs (Decidable (_ ∧ _))

theorem fits_zero : Fits {} := by decide

/-! ### Advancing -/

theorem advance_nil (p : Position) : p.advance [] = p := rfl

theorem advance_cons (p : Position) (c : Char) (cs : List Char) :
    p.advance (c :: cs) = (p.advanceChar c).advance cs := rfl

theorem advance_append (p : Position) (a b : List Char) :
    p.advance (a ++ b) = (p.advance a).advance b :=
  List.foldl_append

/-! ### Order -/

/-- By line, then column. -/
def Le (p q : Position) : Prop := p.line < q.line ∨ (p.line = q.line ∧ p.col ≤ q.col)

theorem Le.refl (p : Position) : p.Le p := .inr ⟨rfl, Nat.le_refl _⟩

theorem Le.trans {p q r : Position} (h : p.Le q) (h' : q.Le r) : p.Le r := by
  unfold Le at *
  omega

theorem Le.line {p q : Position} (h : p.Le q) : p.line ≤ q.line := by
  unfold Le at h
  omega

theorem le_advanceChar (p : Position) (c : Char) : p.Le (p.advanceChar c) := by
  unfold advanceChar
  split
  · exact .inl (Nat.lt_succ_self _)
  · exact .inr ⟨rfl, Nat.le_add_right _ _⟩

theorem le_advance (p : Position) (cs : List Char) : p.Le (p.advance cs) := by
  induction cs generalizing p with
  | nil => exact .refl p
  | cons c cs ih => exact (p.le_advanceChar c).trans (ih _)

end Phrasebook.Position
