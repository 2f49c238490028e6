import Phrasebook.Text.Utf8

/-!
# Places in a text

A cursor is what follows a place in the text together with the number of bytes in front of it.
-/

namespace Phrasebook

structure Cursor where
  rest : List Char
  pos : Nat := 0

namespace Cursor

/-- The place after `n` more characters. -/
def advance (c : Cursor) : Nat → Cursor
  | 0 => c
  | n + 1 =>
    match c.rest with
    | [] => c
    | x :: xs => advance ⟨xs, c.pos + x.utf8Size⟩ n

def startsWith (c : Cursor) (s : String) : Bool := s.toList.isPrefixOf c.rest

def spanFrom (p : Char → Bool) (pos : Nat) : List Char → List Char × Cursor
  | [] => ([], ⟨[], pos⟩)
  | x :: xs =>
    if p x then
      let (taken, after) := spanFrom p (pos + x.utf8Size) xs
      (x :: taken, after)
    else ([], ⟨x :: xs, pos⟩)

/-- The characters that satisfy `p` up to the first one that does not, and the place behind
them. -/
def span (p : Char → Bool) (c : Cursor) : List Char × Cursor := spanFrom p c.pos c.rest

end Cursor

end Phrasebook
