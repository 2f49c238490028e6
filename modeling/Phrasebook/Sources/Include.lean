import Phrasebook.FileSystem
import Phrasebook.Glob

/-!
# Paths that a pattern finds

A pattern with slashes is followed through a file system one component at a time, so that a star
in it does not reach over a slash. Two stars as a component lead to everything below a directory.
-/

namespace Phrasebook

/-- A part of the way that a pattern describes. -/
inductive GlobStep where
  /-- The entry with this name, which may be `.` or `..`. -/
  | entry (name : String)
  /-- Entries of the directory whose names a pattern accepts. -/
  | child (glob : Glob)
  /-- Such entries anywhere below the directory. -/
  | descendant (glob : Glob)
  /-- All directories below the directory. -/
  | anyDirectory

namespace Glob

/-- The text of a pattern that stands for nothing but itself. -/
def literal? (g : Glob) : Option String :=
  (g.tokens.mapM Token.char?).map String.ofList

def isAnyDepth (g : Glob) : Bool := g.tokens.contains .anyComponents

/-- The way along the components of a pattern, of which the one before is two stars if `deep`. -/
def steps (deep : Bool) : List Glob → List GlobStep
  | [] => if deep then [.anyDirectory] else []
  | g :: gs =>
    if g.isAnyDepth then steps true gs
    else
      let first :=
        if deep then .descendant g
        else
          match g.literal? with
          | some name => .entry name
          | none => .child g
      first :: steps false gs

end Glob

/-! ### Following the way -/

/-- The path of an entry of a directory. Those of the working directory are named alone. -/
def childPath (p : Path) (name : String) : Path :=
  if p.components = [.current] then ⟨name⟩ else p.join name

mutual

/-- All entries below an entry which has the path `p`, with their paths. -/
def descendants (p : Path) : Entry → List (Path × Entry)
  | .file _ => []
  | .directory entries => descendantsIn p entries

def descendantsIn (p : Path) : List (String × Entry) → List (Path × Entry)
  | [] => []
  | (name, e) :: es =>
    (childPath p name, e) :: descendants (childPath p name) e ++ descendantsIn p es

end

namespace FileSystem

/-- The entries at a path and their paths. -/
def children (fs : FileSystem) (p : Path) : List (Path × String) :=
  match fs.entry p with
  | .ok (.directory entries) => entries.map fun (name, _) => (childPath p name, name)
  | _ => []

def below (fs : FileSystem) (p : Path) : List (Path × Entry) :=
  match fs.entry p with
  | .ok e => descendants p e
  | .error _ => []

/-- The entries that every directory has for its parent and itself. Only a pattern that begins
with a point finds them. -/
def parentAndSelf (fs : FileSystem) (p : Path) (g : Glob) : List Path :=
  if fs.isDirectory p && g.tokens.head? == some (.char '.') then
    (["..", "."].filter g.accepts).map p.join
  else []

/-- The paths to which a way leads from a path. -/
def alongSteps (fs : FileSystem) : List GlobStep → Path → List Path
  | [], p => [p]
  | .entry name :: steps, p =>
    let found :=
      if name = "." ∨ name = ".." then fs.isDirectory p else fs.has (childPath p name)
    if found then fs.alongSteps steps (childPath p name) else []
  | .child g :: steps, p =>
    let found := (fs.children p).filter fun (_, name) => g.accepts name
    (fs.parentAndSelf p g ++ found.map (·.1)).flatMap (fs.alongSteps steps)
  | .descendant g :: steps, p =>
    (((fs.below p).map (·.1)).filter fun q => q.fileName?.any g.accepts).flatMap
      (fs.alongSteps steps)
  | .anyDirectory :: _, p => ((fs.below p).filter fun (_, e) => e.isDirectory).map (·.1)

/-- The directories that a pattern finds. -/
def directoriesLike (fs : FileSystem) (pattern : String) : Except GlobError (List Path) := do
  let _ ← Glob.parse pattern
  let absolute := (Path.mk pattern).isAbsolute
  let pieces := Text.splitOn '/' (if absolute then pattern.toList.drop 1 else pattern.toList)
  let pieces := if pieces.getLast? = some [] then pieces.dropLast else pieces
  let globs ← pieces.mapM fun piece => Glob.parse (String.ofList piece)
  let start : Path := if absolute then ⟨"/"⟩ else ⟨"."⟩
  return (fs.alongSteps (Glob.steps false globs) start).filter fs.isDirectory

end FileSystem

end Phrasebook
