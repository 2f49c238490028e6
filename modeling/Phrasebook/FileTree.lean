/-!
# Trees of files

A tree without links. An entry stands at an address: the list of the names that lead to it from
the root.
-/

namespace Phrasebook

/-- What is in a file: text, or bytes that are not the UTF-8 form of any. -/
inductive Content where
  | text (s : String)
  | binary (bytes : List UInt8)
deriving DecidableEq, Repr

def Content.ofBytes (bytes : ByteArray) : Content :=
  match String.fromUTF8? bytes with
  | some s => .text s
  | none => .binary bytes.data.toList

inductive Entry where
  | file (content : Content)
  | directory (entries : List (String × Entry))

abbrev Address := List String

namespace Entry

def isDirectory : Entry → Bool
  | file _ => false
  | directory _ => true

def children : Entry → List (String × Entry)
  | file _ => []
  | directory entries => entries

def child? (e : Entry) (name : String) : Option Entry := e.children.lookup name

def at? : Address → Entry → Option Entry
  | [], e => some e
  | name :: names, e => (e.child? name).bind (at? names)

/-- Puts an entry under a name, in the place of the one that is there or in the order of names. -/
def putChild (name : String) (new : Entry) : List (String × Entry) → List (String × Entry)
  | [] => [(name, new)]
  | (n, e) :: es =>
    if n = name then (n, new) :: es
    else if name < n then (name, new) :: (n, e) :: es
    else (n, e) :: putChild name new es

/-- Puts an entry at an address. A file on the way to it is replaced by a directory, and so is
nothing. -/
def put : Entry → Address → Entry → Entry
  | _, [], new => new
  | e, name :: names, new =>
    directory (putChild name (put ((e.child? name).getD (directory [])) names new) e.children)

mutual

/-- All files below an entry which stands at `address`. -/
def filesAt (address : Address) : Entry → List (Address × Content)
  | file content => [(address, content)]
  | directory entries => filesIn address entries

def filesIn (address : Address) : List (String × Entry) → List (Address × Content)
  | [] => []
  | (name, e) :: es => filesAt (address ++ [name]) e ++ filesIn address es

end

def files (e : Entry) : List (Address × Content) := filesAt [] e

def content? : Entry → Option Content
  | file content => some content
  | directory _ => none

/-- The files of a tree that an earlier one does not have, or has with another content. -/
def filesSince (after before : Entry) : List (Address × Content) :=
  after.files.filter fun (address, content) =>
    ((before.at? address).bind content?) != some content

end Entry

end Phrasebook
