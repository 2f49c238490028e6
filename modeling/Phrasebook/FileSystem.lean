import Phrasebook.FileTree
import Phrasebook.Path

/-!
# File systems

A file system is a tree of files together with a working directory, in which relative paths
begin. Operations follow a path from component to component: whatever is left behind has to be a
directory, also where `..` leads out of it again. An operation that fails keeps what it has done
before.
-/

namespace Phrasebook

inductive FileFault where
  | notFound
  | alreadyExists
  | notDirectory
  | isDirectory
  | notText
  | badPath
deriving DecidableEq, Repr

namespace FileFault

def message : FileFault → String
  | notFound => "No such file or directory (os error 2)"
  | alreadyExists => "File exists (os error 17)"
  | notDirectory => "Not a directory (os error 20)"
  | isDirectory => "Is a directory (os error 21)"
  | notText => "stream did not contain valid UTF-8"
  | badPath => "file name contained an unexpected NUL byte"

end FileFault

structure FileSystem where
  tree : Entry
  workingDirectory : Address := []

namespace FileSystem

/-- An address that has to be a directory. -/
def directoryAt (fs : FileSystem) (address : Address) : Except FileFault Unit :=
  match fs.tree.at? address with
  | some (.directory _) => .ok ()
  | some (.file _) => .error .notDirectory
  | none => .error .notFound

def follow (fs : FileSystem) (address : Address) : List Path.Component → Except FileFault Address
  | [] => .ok address
  | .root :: cs => fs.follow [] cs
  | c :: cs => do
    fs.directoryAt address
    match c with
    | .name name => fs.follow (address ++ [name]) cs
    | .parent => fs.follow address.dropLast cs
    | _ => fs.follow address cs

/-- The address that a path leads to, where there need not be an entry. -/
def locate (fs : FileSystem) (p : Path) : Except FileFault Address :=
  if p.text = "" then .error .notFound
  else if p.text.toList.any (·.toNat == 0) then .error .badPath
  else fs.follow fs.workingDirectory p.components

def entry (fs : FileSystem) (p : Path) : Except FileFault Entry := do
  let address ← fs.locate p
  match fs.tree.at? address with
  | none => .error .notFound
  | some e => if p.namesDirectory && !e.isDirectory then .error .notDirectory else .ok e

def has (fs : FileSystem) (p : Path) : Bool := (fs.entry p).toBool

def isDirectory (fs : FileSystem) (p : Path) : Bool :=
  match fs.entry p with
  | .ok e => e.isDirectory
  | .error _ => false

def readText (fs : FileSystem) (p : Path) : Except FileFault String := do
  match ← fs.entry p with
  | .file (.text s) => .ok s
  | .file (.binary _) => .error .notText
  | .directory _ => .error .isDirectory

def put (fs : FileSystem) (address : Address) (e : Entry) : FileSystem :=
  { fs with tree := fs.tree.put address e }

/-- Makes a file or gives one a new content. -/
def writeText (fs : FileSystem) (p : Path) (s : String) : Except FileFault FileSystem := do
  let address ← fs.locate p
  match fs.tree.at? address with
  | some (.directory _) => .error .isDirectory
  | some (.file _) =>
    if p.namesDirectory then .error .notDirectory else .ok (fs.put address (.file (.text s)))
  | none =>
    if p.namesDirectory then .error .isDirectory else .ok (fs.put address (.file (.text s)))

def makeDirectory (fs : FileSystem) (p : Path) : Except FileFault FileSystem := do
  let address ← fs.locate p
  match fs.tree.at? address with
  | some _ => .error .alreadyExists
  | none => .ok (fs.put address (.directory []))

end FileSystem

/-! ### Sequences of operations -/

abbrev FileM (ε : Type) := EStateM ε FileSystem

namespace FileM

/-- An operation that changes nothing when it fails. -/
def lift (op : FileSystem → Except FileFault FileSystem) : FileM FileFault Unit := fun fs =>
  match op fs with
  | .ok fs => .ok () fs
  | .error e => .error e fs

def writeText (p : Path) (s : String) : FileM FileFault Unit := lift (·.writeText p s)

/-- Makes a directory, but takes one that is there already. -/
def ensureDirectory (p : Path) : FileM FileFault Unit :=
  tryCatch (lift (·.makeDirectory p)) fun e => do
    unless (← get).isDirectory p do throw e

/-- Makes the first one of some directories that lie in each other, the outermost one last, and
before it those in which it lies if they are missing. -/
def ensureNested : List Path → FileM FileFault Unit
  | [] => pure ()
  | p :: ps =>
    tryCatch (ensureDirectory p) fun e => do
      if e = .notFound ∧ ps ≠ [] then
        ensureNested ps
        ensureDirectory p
      else throw e

/-- Makes a directory and all directories in which it lies. The empty path needs none. -/
def makeDirectories (p : Path) : FileM FileFault Unit :=
  ensureNested (p.ancestors.filter (·.text ≠ ""))

end FileM

/-! ### Writing with directories -/

/-- Why a file could not be written: its directory could not be made, or the file itself. -/
inductive WriteError where
  | directory (path : Path) (fault : FileFault)
  | file (path : Path) (fault : FileFault)
deriving DecidableEq, Repr

namespace WriteError

def message : WriteError → String
  | directory path fault =>
    "Failed to create directory: " ++ path.text ++ ": " ++ fault.message
  | file path fault => "Failed to write file: " ++ path.text ++ ": " ++ fault.message

end WriteError

namespace FileM

def createParent (p : Path) : FileM WriteError Unit :=
  match p.parent? with
  | some d => (makeDirectories d).adaptExcept (.directory d)
  | none => pure ()

def createFile (p : Path) (s : String) : FileM WriteError Unit :=
  (writeText p s).adaptExcept (.file p)

end FileM

end Phrasebook
