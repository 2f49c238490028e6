import Phrasebook.Config.Load
import Phrasebook.Config.Override
import Phrasebook.Extraction.Report

/-!
# Commands

What the program can be told to do, and what it replies: lines for the reader, lines about what has
gone wrong, and a status.
-/

namespace Phrasebook

structure ExtractCommand where
  /-- Where the configuration is looked for and relative paths begin. -/
  root : String := "."
  verbose : Bool := false
  overrides : Overrides := {}
deriving DecidableEq, Repr

inductive Command where
  | extract (c : ExtractCommand)
  /-- Writes a configuration file in which everything has its default value. -/
  | init
  | help
  | version
deriving DecidableEq, Repr

inductive Status where
  | success
  /-- Something has failed, but the rest was done. -/
  | failure
  /-- The command could not be carried out. -/
  | aborted
deriving DecidableEq, Repr

def Status.code : Status → Nat
  | success => 0
  | failure => 1
  | aborted => 2

structure Reply where
  status : Status := .success
  out : List String := []
  err : List String := []
deriving DecidableEq, Repr

namespace Reply

def abort (err : List String) (message : String) : Reply :=
  { status := .aborted, err := err ++ ["Error: " ++ message] }

end Reply

namespace Command

def programName : String := "lingo"

def programVersion : String := "0.1.0"

def usage : List String := [
  "Extracts the messages of sources and puts calls in their places.",
  "",
  "Usage: " ++ programName ++ " extract [OPTIONS]",
  "       " ++ programName ++ " init",
  "",
  "Options of extract:",
  "      --source-root DIR    where the configuration is and paths begin",
  "      --out-dir DIR        where transformed sources are written",
  "      --json FILE          where the dictionary is written",
  "      --pot FILE           where the template for translators is written",
  "      --arg-mode MODE      named or indexed",
  "      --default-value      calls carry the source text",
  "      --debug              calls are put between visible marks",
  "      --hash-length N      digits of new ids",
  "  -v, --verbose            says more"]

/-! ### Extracting -/

/-- What is told before an extraction for which no configuration was found. -/
def defaultsNote (c : ExtractCommand) (path : Option Path) : List String :=
  if c.verbose && path.isNone then
    ["Note: No " ++ Config.fileName ++ " found, using default configuration"]
  else []

def extractReply (s : Summary) (verbose : Bool) (notes : List String) : Reply where
  status := if s.failures = [] then .success else .failure
  out := Report.lines s verbose
  err := notes ++ Report.failureLines s

def runExtract (c : ExtractCommand) : StateM FileSystem Reply := fun fs =>
  let root : Path := ⟨c.root⟩
  match Config.load fs root with
  | .error error => (.abort [] error.message, fs)
  | .ok (config, path) =>
    let notes := defaultsNote c path
    match Extraction.run (config.override c.overrides) root fs with
    | .ok s fs => (extractReply s c.verbose notes, fs)
    | .error error fs => (.abort notes error.message, fs)

/-! ### Making a configuration -/

def runInit : StateM FileSystem Reply := fun fs =>
  let path : Path := ⟨Config.fileName⟩
  if fs.has path then
    ({ status := .failure, err := ["Error: " ++ path.text ++ " already exists"] }, fs)
  else
    match fs.writeText path (Config.defaultText ++ "\n") with
    | .ok fs => ({ out := [Report.successMark ++ " Created " ++ path.text] }, fs)
    | .error fault =>
      (.abort [] ("Failed to write " ++ path.text ++ ": " ++ fault.message), fs)

def run : Command → StateM FileSystem Reply
  | extract c => runExtract c
  | init => runInit
  | help => return { out := usage }
  | version => return { out := [programName ++ " " ++ programVersion] }

end Command

end Phrasebook
