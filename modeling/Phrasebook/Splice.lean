import Phrasebook.Mapping.SourceMap
import Phrasebook.Sorted

/-!
# Splicing edits into text

An edit replaces the bytes from `start` up to `stop`; with `start = stop` it inserts. Edits cut
the text into pieces that are kept and pieces that are replaced. The new text is what the pieces
say, and every kept character that is no line feed, as well as the start of every piece that
replaces something, is linked to where it comes from.
-/

namespace Phrasebook

structure Edit where
  start : Nat
  stop : Nat
  text : String
deriving DecidableEq, Repr

/-- A part of the text that stays, or what stood in the place of a new text. -/
inductive Piece where
  | kept (cs : List Char)
  | replaced (old new : List Char)
deriving DecidableEq, Repr

namespace Piece

def old : Piece → List Char
  | kept cs => cs
  | replaced old _ => old

def new : Piece → List Char
  | kept cs => cs
  | replaced _ new => new

end Piece

/-- Order of places. An insertion stands before what is replaced from the same place on. -/
def Edit.le (a b : Edit) : Bool := a.start < b.start || (a.start == b.start && a.stop ≤ b.stop)

namespace Splice

/-- By place; at one place insertions come first, in the order in which they were asked for. -/
def sortEdits (edits : List Edit) : List Edit := Sorted.sort Edit.le edits

/-- The characters that begin in the first `n` bytes, and the others. -/
def splitBytes : Nat → List Char → List Char × List Char
  | 0, cs => ([], cs)
  | _ + 1, [] => ([], [])
  | n + 1, c :: cs =>
    let (a, b) := splitBytes (n + 1 - c.utf8Size) cs
    (c :: a, b)
termination_by structural _ cs => cs

/-- Cuts `cs`, which begins at the byte `cursor` of the text, by sorted edits. -/
def pieces (cursor : Nat) (cs : List Char) : List Edit → List Piece
  | [] => [.kept cs]
  | e :: es =>
    let (before, rest) := splitBytes (e.start - cursor) cs
    let start := cursor + Text.byteLength before
    let (old, rest) := splitBytes (e.stop - start) rest
    .kept before :: .replaced old e.text.toList :: pieces (start + Text.byteLength old) rest es

def code (ps : List Piece) : List Char := ps.flatMap Piece.new

/-- The links of characters that are kept. -/
def keptLinks (generated source : Position) : List Char → List Mapping.Link
  | [] => []
  | c :: cs =>
    let rest := keptLinks (generated.advanceChar c) (source.advanceChar c) cs
    if c = '\n' then rest else ⟨generated, source⟩ :: rest

def links (generated source : Position) : List Piece → List Mapping.Link
  | [] => []
  | p :: ps =>
    let here :=
      match p with
      | .kept cs => keptLinks generated source cs
      | .replaced [] _ => []
      | .replaced (_ :: _) _ => [⟨generated, source⟩]
    here ++ links (generated.advance p.new) (source.advance p.old) ps

/-- The text after the edits and the map back to the text before them. -/
def apply (source : String) (edits : List Edit) (file : String) : String × SourceMap :=
  let ps := pieces 0 source.toList (sortEdits edits)
  (String.ofList (code ps), .ofLinks file source (links {} {} ps))

end Splice

end Phrasebook
