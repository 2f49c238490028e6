import Phrasebook.Config
import Phrasebook.FileSystem

/-!
# Finding a configuration

The configuration of a directory is the nearest one in it or above it. A directory that is the top
of a repository ends the search; where nothing is found, the defaults hold.
-/

namespace Phrasebook

inductive LoadError where
  | unreadable (path : Path) (fault : FileFault)
  | unparsable (path : Path) (error : Json.ReadError)
  | invalid (error : ConfigError)
deriving DecidableEq, Repr

def LoadError.message : LoadError → String
  | unreadable path fault =>
    "Failed to read config file: " ++ Text.quotedStrictly path.text ++ ": " ++ fault.message
  | unparsable path error =>
    "Failed to parse config file: " ++ Text.quotedStrictly path.text ++ ": " ++ error.message
  | invalid error => error.message

namespace Config

def fileName : String := ".lingorc.json"

def repositoryMark : String := ".git"

/-- The configuration file of the first directory that has one, unless one before it is the top of
a repository. -/
def findIn (fs : FileSystem) : List Path → Option Path
  | [] => none
  | p :: ps =>
    if fs.has (p.join fileName) then some (p.join fileName)
    else if fs.has (p.join repositoryMark) then none
    else findIn fs ps

def find? (fs : FileSystem) (start : Path) : Option Path := findIn fs start.ancestors

/-- The configuration for a directory and the file from which it comes. -/
def load (fs : FileSystem) (start : Path) : Except LoadError (Config × Option Path) :=
  match find? fs start with
  | none => .ok ({}, none)
  | some path => do
    let text ← (fs.readText path).mapError (.unreadable path)
    let config ← (parse text).mapError (.unparsable path)
    config.validate.mapError .invalid
    return (config, some path)

end Config

end Phrasebook
