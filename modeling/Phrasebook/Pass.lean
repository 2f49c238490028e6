import Phrasebook.FileSystem
import Phrasebook.Transform

/-!
# Passes over source files

A pass forgets the messages of the one before and transforms files in the order in which they are
listed. All of them are read before the first one is applied, and all are applied before the first
result is written. What goes wrong with a file is its outcome and does not keep the others from
theirs.
-/

namespace Phrasebook

inductive FileError where
  | unreadable (fault : FileFault)
  | exhausted (error : ExhaustedIds)
  | unwritable (error : WriteError)
deriving DecidableEq, Repr

def FileError.message : FileError → String
  | unreadable fault => "Failed to read file: " ++ fault.message
  | exhausted error => error.message
  | unwritable error => error.message

/-- What went wrong with a file, by its name. -/
structure Failure where
  file : String
  error : FileError
deriving DecidableEq, Repr

/-- What has become of a file. -/
inductive Outcome where
  | transformed (messages exempted : Nat)
  | unchanged (exempted : Nat)
  | failed (failure : Failure)
deriving DecidableEq, Repr

namespace Pass

/-! ### Reading -/

structure ReadFile where
  /-- The path below the root. -/
  path : Path
  source : String
  prepared : Prepared

/-- The path of a file below the root. -/
def relativePath (root p : Path) : Path :=
  .ofComponents <| ((p.relativeTo? root).getD p).components.filter (· ≠ .current)

def readFile (fs : FileSystem) (root : Path) (o : Options) (p : Path) : Except Failure ReadFile :=
  let path := relativePath root p
  match fs.readText p with
  | .ok source => .ok ⟨path, source, prepare source path.slashed o⟩
  | .error fault => .error ⟨path.slashed, .unreadable fault⟩

/-! ### Applying -/

structure AppliedFile where
  path : Path
  output : Output

/-- Applies a file that could be read. -/
def applyFile (o : Options) : Except Failure ReadFile → StateM Store (Except Failure AppliedFile)
  | .error failure => return .error failure
  | .ok file => do
    match ← file.prepared.apply file.source o with
    | .ok output => return .ok ⟨file.path, output⟩
    | .error error => return .error ⟨file.prepared.filename, .exhausted error⟩

/-! ### Writing -/

/-- The code with a line at its end that names the file of the map. -/
def withMapLink (code mapName : String) : String :=
  let lineEnd := if code.toList.getLast? = some '\n' then "" else "\n"
  code ++ lineEnd ++ "//# sourceMappingURL=" ++ mapName ++ "\n"

/-- Writes code and its map beside it. -/
def writeResult (target : Path) (code : String) (map : SourceMap) : FileM WriteError Unit := do
  let mapName := target.fileName?.getD "" ++ ".map"
  FileM.createParent target
  FileM.createFile target (withMapLink code mapName)
  FileM.createFile (target.withFileName mapName) map.toJson.compact

/-- Writes the result of a file that was changed, if results are written. -/
def writeFile (outDir : Option Path) (file : AppliedFile) : StateM FileSystem Outcome := fun fs =>
  let output := file.output
  match output.map with
  | none => (.unchanged output.exempted, fs)
  | some map =>
    let done := Outcome.transformed output.messageCount output.exempted
    match outDir with
    | none => (done, fs)
    | some dir =>
      match writeResult (dir.join file.path.text) output.code map fs with
      | .ok () fs => (done, fs)
      | .error error fs => (.failed ⟨output.filename, .unwritable error⟩, fs)

def writeOutcome (outDir : Option Path) :
    Except Failure AppliedFile → StateM FileSystem Outcome
  | .error failure => return .failed failure
  | .ok file => writeFile outDir file

/-! ### Passes -/

/-- Transforms files without forgetting anything. -/
def transformFiles (files : List Path) (root : Path) (o : Options) (outDir : Option Path)
    (s : Store) (fs : FileSystem) : List Outcome × Store × FileSystem :=
  let (applied, s) := ((files.map (readFile fs root o)).mapM (applyFile o)).run s
  let (outcomes, fs) := (applied.mapM (writeOutcome outDir)).run fs
  (outcomes, s, fs)

/-- A pass over files. Options that cannot be used end it before it begins. -/
def run (files : List Path) (root : Path) (o : Options) (outDir : Option Path) (s : Store)
    (fs : FileSystem) : Except OptionsError (List Outcome × Store × FileSystem) := do
  o.validate
  return transformFiles files root o outDir s.clear fs

end Pass

end Phrasebook
