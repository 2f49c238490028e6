import Phrasebook.Sorted

/-!
# Messages

A message is a source text in a context, with everything that the sources say about it. Locations
and comments are sets, kept in ascending order.
-/

namespace Phrasebook

/-- Where a message function stands. Lines and columns count from one. -/
structure Location where
  file : String
  line : Nat
  col : Nat
deriving DecidableEq, Repr

namespace Location

/-- By file, then line, then column. -/
def lt (a b : Location) : Bool :=
  decide (a.file < b.file) ||
    (a.file == b.file && (decide (a.line < b.line) ||
      (a.line == b.line && decide (a.col < b.col))))

def render (l : Location) : String :=
  l.file ++ ":" ++ toString l.line ++ ":" ++ toString l.col

end Location

structure Message where
  id : String
  text : String
  context : Option String := none
  parameters : List String := []
  locations : List Location := []
  comments : List String := []
deriving DecidableEq, Repr

namespace Message

/-- Locations and comments of both; all else is that of the first. -/
def merge (a b : Message) : Message :=
  { a with
    locations := Sorted.union Location.lt a.locations b.locations
    comments := Sorted.union Sorted.textLt a.comments b.comments }

end Message

end Phrasebook
