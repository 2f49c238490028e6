/-!
# Ascending lists

A finite set is kept as the list of its members in ascending order of `lt`, each once. A member
that is there already stays. `sort` keeps all members of a list, equal ones in their order.
-/

namespace Phrasebook.Sorted

variable {α : Type}

def insert (lt : α → α → Bool) (x : α) : List α → List α
  | [] => [x]
  | y :: ys =>
    if lt x y then x :: y :: ys else if lt y x then y :: insert lt x ys else y :: ys

def union (lt : α → α → Bool) (xs ys : List α) : List α :=
  ys.foldl (fun acc y => insert lt y acc) xs

def ofList (lt : α → α → Bool) (xs : List α) : List α := union lt [] xs

/-- Puts `x` in front of the first member that it does not have to follow. -/
def place (le : α → α → Bool) (x : α) : List α → List α
  | [] => [x]
  | y :: ys => if le x y then x :: y :: ys else y :: place le x ys

def sort (le : α → α → Bool) (xs : List α) : List α := xs.foldr (place le) []

/-- Order of texts by their bytes, which is that of their characters. -/
def textLt (a b : String) : Bool := decide (a < b)

end Phrasebook.Sorted
