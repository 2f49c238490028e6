import Phrasebook.Sorted
import Phrasebook.Text.Split

/-!
# Paths

A path keeps the text that it was made from; what it means are its `components`. Empty pieces
between slashes mean nothing, and neither do single points, save one at the beginning. Paths are
compared and put in order by their components.
-/

namespace Phrasebook

structure Path where
  text : String
deriving DecidableEq, Repr

namespace Path

/-- The constructors stand in the order of paths. -/
inductive Component where
  | root
  | current
  | parent
  | name (name : String)
deriving DecidableEq, Repr

def Component.text : Component → String
  | root => "/"
  | current => "."
  | parent => ".."
  | name n => n

def isAbsolute (p : Path) : Bool := "/".toList.isPrefixOf p.text.toList

/-- The pieces of a path between slashes. Those in front of the first slash of an absolute path
are left out. -/
def pieces (p : Path) : List (List Char) :=
  if p.isAbsolute then Text.splitOn '/' (p.text.toList.drop 1) else Text.splitOn '/' p.text.toList

/-- Whether a piece behind the first one means nothing. -/
def isVoid (piece : List Char) : Bool := piece = [] || piece = ['.']

def pieceComponent (piece : List Char) : Component :=
  if piece = ['.', '.'] then .parent else .name (String.ofList piece)

def bodyComponents (pieces : List (List Char)) : List Component :=
  (pieces.filter (!isVoid ·)).map pieceComponent

/-- The number of pieces at the beginning that are no body: a single point. -/
def headLength (p : Path) : Nat := if !p.isAbsolute && p.pieces.head? == some ['.'] then 1 else 0

def components (p : Path) : List Component :=
  (if p.isAbsolute then [.root] else if p.headLength = 1 then [.current] else [])
    ++ bodyComponents (p.pieces.drop p.headLength)

/-- The path with these pieces, behind a slash or not. -/
def ofPieces (absolute : Bool) (pieces : List (List Char)) : Path :=
  let body := Text.join ['/'] pieces
  ⟨String.ofList (if absolute then '/' :: body else body)⟩

def dropVoidEnd (pieces : List (List Char)) : List (List Char) :=
  (pieces.reverse.dropWhile isVoid).reverse

/-- Reads `rest` from `p` on, or from the root if it is absolute. -/
def join (p : Path) (rest : String) : Path :=
  if (Path.mk rest).isAbsolute || p.text = "" then ⟨rest⟩
  else if p.text.toList.getLast? = some '/' then ⟨p.text ++ rest⟩
  else ⟨p.text ++ "/" ++ rest⟩

/-- The path without its last component; `none` for the root and for a path without any. -/
def parent? (p : Path) : Option Path :=
  let head := p.pieces.take p.headLength
  match (dropVoidEnd (p.pieces.drop p.headLength)).reverse with
  | _ :: front => some (ofPieces p.isAbsolute (head ++ dropVoidEnd front.reverse))
  | [] => if p.headLength = 1 then some ⟨""⟩ else none

/-- The path and all that `parent?` leads to from it, the longest one first. At most `n` of
them. -/
def ancestorsUpTo : Nat → Path → List Path
  | 0, _ => []
  | n + 1, p =>
    match p.parent? with
    | some q => p :: ancestorsUpTo n q
    | none => [p]

def ancestors (p : Path) : List Path := ancestorsUpTo (p.components.length + 1) p

def fileName? (p : Path) : Option String :=
  match p.components.getLast? with
  | some (.name n) => some n
  | _ => none

/-- What follows the last point of the file name, unless that is its first character. -/
def extension? (p : Path) : Option String :=
  p.fileName?.bind fun n =>
    let reversed := n.toList.reverse
    match reversed.dropWhile (· ≠ '.') with
    | _ :: _ :: _ => some (String.ofList (reversed.takeWhile (· ≠ '.')).reverse)
    | _ => none

/-- The path with another file name, or with one if it has none. -/
def withFileName (p : Path) (name : String) : Path :=
  (if p.fileName?.isSome then p.parent?.getD p else p).join name

def isUnder (p base : Path) : Bool := base.components.isPrefixOf p.components

/-- What is left behind the first `n` components, of which none is the root or a single point. -/
def dropBody : Nat → List (List Char) → List (List Char)
  | _, [] => []
  | n, piece :: pieces =>
    if isVoid piece then dropBody n pieces
    else
      match n with
      | 0 => piece :: pieces
      | n + 1 => dropBody n pieces

/-- What has to be joined to `base` to give the path. -/
def relativeTo? (p base : Path) : Option Path :=
  if !p.isUnder base then none
  else
    let n := base.components.length
    if n = 0 then some (ofPieces p.isAbsolute (p.pieces.take p.headLength
      ++ dropVoidEnd (p.pieces.drop p.headLength)))
    else
      let n := if p.isAbsolute || p.headLength = 1 then n - 1 else n
      some (ofPieces false (dropVoidEnd (dropBody n (p.pieces.drop p.headLength))))

/-- Whether the text of the path asks for a directory. -/
def namesDirectory (p : Path) : Bool :=
  match (Text.splitOn '/' p.text.toList).reverse with
  | last :: _ :: _ => isVoid last
  | _ => false

/-- The text of the path with all its slashes leaning forward. -/
def slashed (p : Path) : String := p.text.map fun c => if c = '\\' then '/' else c

def Component.lt : Component → Component → Bool
  | .name m, .name n => decide (m < n)
  | a, b => a.ctorIdx < b.ctorIdx

/-- Lexicographic order of the components. -/
def componentsLt : List Component → List Component → Bool
  | [], [] => false
  | [], _ :: _ => true
  | _ :: _, [] => false
  | a :: as, b :: bs => a.lt b || (a == b && componentsLt as bs)

def lt (p q : Path) : Bool := componentsLt p.components q.components

/-- Whether two paths have the same components. -/
def equiv (p q : Path) : Bool := p.components == q.components

/-- The components one after the other, each joined to those in front of it. -/
def ofComponents (cs : List Component) : Path := cs.foldl (fun p c => p.join c.text) ⟨""⟩

end Path

end Phrasebook
