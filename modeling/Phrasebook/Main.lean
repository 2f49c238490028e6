import Phrasebook.Command.Arguments

/-!
# The program

Takes a picture of the files that a command can look at, runs the command on it, and writes the
files that it has made or changed. Links are left out of the picture.
-/

namespace Phrasebook.Program

/-- Whether a command can look into a file of this name. -/
def isReadable (name : String) : Bool := name == Config.fileName || isSourceFile ⟨name⟩

def fileAt (e : IO.FS.DirEntry) : IO Entry := do
  if isReadable e.fileName then return .file (.ofBytes (← IO.FS.readBinFile e.path))
  else return .file (.binary [])

def ofListing (entries : List (List (String × Entry))) : Entry :=
  .directory (Sorted.sort (fun a b => a.1 ≤ b.1) entries.flatten)

/-- An entry by its name, with at most `depth` levels of what lies below it. -/
def entriesAt : Nat → IO.FS.DirEntry → IO (List (String × Entry))
  | 0, _ => return []
  | depth + 1, e => do
    match (← e.path.symlinkMetadata).type with
    | .dir =>
      return [(e.fileName, ofListing (← (← e.path.readDir).toList.mapM (entriesAt depth)))]
    | .file => return [(e.fileName, ← fileAt e)]
    | _ => return []

def textOf (address : Address) : String := "/" ++ String.intercalate "/" address

def directoryAt (depth : Nat) (address : Address) : IO Entry := do
  let entries ← (← IO.FS.realPath (textOf address)).readDir
  return ofListing (← entries.toList.mapM (entriesAt depth))

/-- More levels than a path can have. -/
def maxDepth : Nat := 4096

/-- Adds a directory to a picture, unless there is none. -/
def take (depth : Nat) (tree : Entry) (address : Address) : IO Entry :=
  try return tree.put address (← directoryAt depth address) catch _ => return tree

/-- Whether nothing is known yet of what is in a directory. -/
def isBlank (tree : Entry) (address : Address) : Bool :=
  ((tree.at? address).map fun e => e.children.isEmpty).getD true

/-- Adds all that lies below a directory, and one level of each directory around it. -/
def takeAround (tree : Entry) (address : Address) : IO Entry := do
  let outer := ((List.range address.length).map address.take).filter (isBlank tree ·)
  take maxDepth (← outer.foldlM (take 1) tree) address

def step (address : Address) : Path.Component → Address
  | .root => []
  | .current => address
  | .parent => address.dropLast
  | .name n => address ++ [n]

/-- The address of a path in a tree without links. -/
def addressOf (workingDirectory : Address) (p : Path) : Address :=
  p.components.foldl step workingDirectory

def rootOf : Command → Path
  | .extract c => ⟨c.root⟩
  | _ => ⟨"."⟩

def picture (c : Command) : IO FileSystem := do
  let here := addressOf [] ⟨(← IO.currentDir).toString⟩
  let tree ← takeAround (.directory []) here
  return ⟨← takeAround tree (addressOf here (rootOf c)), here⟩

def writeFile (file : Address × Content) : IO Unit := do
  match file with
  | (address, .text s) =>
    IO.FS.createDirAll (textOf address.dropLast)
    IO.FS.writeFile (textOf address) s
  | (_, .binary _) => pure ()

def run (c : Command) : IO UInt32 := do
  let before ← picture c
  let (reply, after) := c.run before
  (after.tree.filesSince before.tree).forM writeFile
  reply.err.forM fun line => IO.eprintln line
  reply.out.forM fun line => IO.println line
  return reply.status.code.toUInt32

end Phrasebook.Program

open Phrasebook in
def main (words : List String) : IO UInt32 := do
  match Command.ofArguments words with
  | .ok c => Program.run c
  | .error error =>
    IO.eprintln ("error: " ++ error.message)
    return Status.aborted.code.toUInt32
