import Phrasebook.Mapping.Position
import Phrasebook.Mapping.Vlq
import Phrasebook.Text.Split

/-!
# Mapping segments and their text

A segment maps a column of a generated line to a position in the source. The text of the segments
has the lines between semicolons and the segments of a line between commas. A segment is four
numbers, each less the one before it: the column (from zero again on every line), the source,
which is always the same, and line and column in the source.
-/

namespace Phrasebook.Mapping

structure Segment where
  generatedCol : Nat
  source : Position
deriving DecidableEq, Repr

/-- A generated position and the source position it comes from. -/
structure Link where
  generated : Position
  source : Position
deriving DecidableEq, Repr

/-- The segments line by line, as many lines as the last one with a segment needs. -/
def linesOf (links : List Link) : List (List Segment) :=
  let count := links.foldl (fun n l => max n (l.generated.line + 1)) 0
  (List.range count).map fun i =>
    (links.filter (·.generated.line == i)).map fun l => ⟨l.generated.col, l.source⟩

def difference (a b : Nat) : Int := (a : Int) - (b : Int)

/-- A segment after the column `col` of its line and the source position `source`. -/
def encodeSegment (col : Nat) (source : Position) (s : Segment) : List Char :=
  Vlq.encode (difference s.generatedCol col) ++ Vlq.encode 0
    ++ Vlq.encode (difference s.source.line source.line)
    ++ Vlq.encode (difference s.source.col source.col)

def encodeLine (col : Nat) (source : Position) : List Segment → List (List Char)
  | [] => []
  | s :: rest => encodeSegment col source s :: encodeLine s.generatedCol s.source rest

/-- The source position of the last segment, or `source` when there is none. -/
def lastSource (source : Position) (line : List Segment) : Position :=
  (line.getLast?.map (·.source)).getD source

def encodeLines (source : Position) : List (List Segment) → List (List Char)
  | [] => []
  | line :: rest =>
    Text.join [','] (encodeLine 0 source line) :: encodeLines (lastSource source line) rest

def encode (lines : List (List Segment)) : List Char := Text.join [';'] (encodeLines {} lines)

/-- The sums of the differences read so far. -/
structure Sums where
  col : Int := 0
  sourceLine : Int := 0
  sourceCol : Int := 0

/-- Positions are 32-bit words. -/
def position? (n : Int) : Option Nat := if 0 ≤ n ∧ n < 0x100000000 then some n.toNat else none

def decodeSegment (sums : Sums) (piece : List Char) : Option (Segment × Sums) :=
  match Vlq.decode piece with
  | some [col, _, line, sourceCol] => do
    let sums : Sums := ⟨sums.col + col, sums.sourceLine + line, sums.sourceCol + sourceCol⟩
    let segment : Segment :=
      ⟨← position? sums.col, ← position? sums.sourceLine, ← position? sums.sourceCol⟩
    some (segment, sums)
  | _ => none

def decodeLine (sums : Sums) : List (List Char) → Option (List Segment × Sums)
  | [] => some ([], sums)
  | piece :: rest => do
    let (segment, sums) ← decodeSegment sums piece
    let (segments, sums) ← decodeLine sums rest
    some (segment :: segments, sums)

def decodeLines (sums : Sums) : List (List Char) → Option (List (List Segment))
  | [] => some []
  | line :: rest => do
    let pieces := (Text.splitOn ',' line).filter (· ≠ [])
    let (segments, sums) ← decodeLine { sums with col := 0 } pieces
    let lines ← decodeLines sums rest
    some (segments :: lines)

/-- The segments of every line; `none` when a piece is not a segment. -/
def decode (text : List Char) : Option (List (List Segment)) :=
  decodeLines {} (Text.splitOn ';' text)

end Phrasebook.Mapping
