import Phrasebook.Sources.Include

/-!
# Source files

`scan` gives the source files in the directories that are included, without those that are
ignored. A directory that is ignored is not entered; the included ones themselves are entered in
any case. Ignored are paths as such, with all that lies under them, and patterns, which are held
against the path below the root and against the whole path.
-/

namespace Phrasebook

def sourceExtensions : List String := ["ts", "tsx", "mts", "cts", "js", "jsx", "mjs", "cjs"]

/-- Names of files with declarations end with these. -/
def declarationEndings : List String := [".d.ts", ".d.mts", ".d.cts"]

def testFilePatterns : List String := [
  "**/*.test.tsx", "**/*.test.ts", "**/*.test.jsx", "**/*.test.js", "**/*.spec.tsx",
  "**/*.spec.ts", "**/*.spec.jsx", "**/*.spec.js", "**/__tests__/**"]

def isSourceFile (p : Path) : Bool :=
  p.fileName?.any (fun n => !declarationEndings.any fun e => e.toList.isSuffixOf n.toList)
    && p.extension?.any sourceExtensions.contains

structure ScanOptions where
  includes : List String := []
  ignores : List String := []
  ignoresTests : Bool := false

/-- Whether a text is looked up as a pattern and not as a path. -/
def isPattern (s : String) : Bool := s.toList.any fun c => c == '*' || c == '?' || c == '['

/-! ### Ignored paths -/

structure IgnoreRules where
  root : Path
  paths : List Path := []
  globs : List Glob := []

namespace IgnoreRules

/-- Patterns that cannot be read are left out. -/
def of (root : Path) (o : ScanOptions) : IgnoreRules :=
  let patterns := o.ignores.filter isPattern ++ if o.ignoresTests then testFilePatterns else []
  { root
    paths := (o.ignores.filter (!isPattern ·)).map root.join
    globs := patterns.filterMap fun s => (Glob.parse s).toOption }

def ignores (r : IgnoreRules) (p : Path) : Bool :=
  let relative := (p.relativeTo? r.root).getD p
  r.paths.any p.isUnder
    || r.globs.any fun g => g.accepts relative.slashed || g.accepts p.slashed

end IgnoreRules

/-! ### Walking -/

mutual

/-- The source files of an entry with the path `p`, without the entries below it that are
skipped. -/
def sourcesOf (skips : Path → Bool) (p : Path) : Entry → List Path
  | .file _ => if isSourceFile p then [p] else []
  | .directory entries => sourcesIn skips p entries

def sourcesIn (skips : Path → Bool) (p : Path) : List (String × Entry) → List Path
  | [] => []
  | (name, e) :: es =>
    (if skips (p.join name) then [] else sourcesOf skips (p.join name) e)
      ++ sourcesIn skips p es

end

namespace FileSystem

/-- What is walked: the root itself when nothing is included. Patterns that cannot be read and
paths where nothing is are left out. -/
def included (fs : FileSystem) (root : Path) (includes : List String) : List Path :=
  if includes = [] then [root]
  else
    includes.flatMap fun s =>
      let p := root.join s
      if isPattern s then (fs.directoriesLike p.text).toOption.getD []
      else if fs.has p then [p]
      else []

/-- The source files at a path and below it. -/
def sourcesAt (fs : FileSystem) (skips : Path → Bool) (p : Path) : List Path :=
  match fs.entry p with
  | .ok e => sourcesOf skips p e
  | .error _ => []

/-- The source files at some paths and below them, each once, in the order of paths. -/
def filesFrom (fs : FileSystem) (skips : Path → Bool) (starts : List Path) : List Path :=
  Sorted.ofList Path.lt (starts.flatMap (fs.sourcesAt skips))

def scan (fs : FileSystem) (root : Path) (o : ScanOptions) : List Path :=
  let rules := IgnoreRules.of root o
  fs.filesFrom rules.ignores (fs.included root o.includes)

end FileSystem

end Phrasebook
