import Phrasebook.Config
import Phrasebook.Dictionary
import Phrasebook.Pass
import Phrasebook.Sources
import Phrasebook.Template

/-!
# Extractions

An extraction makes a pass over the source files of a project and then writes what it has found:
the dictionary, and the template for translators if one is wanted. A file that fails does not end
it; a dictionary or a template that cannot be written does, and what was written before stays.
-/

namespace Phrasebook

/-! ### Summaries -/

namespace Outcome

def isTransformed : Outcome → Bool
  | transformed .. => true
  | _ => false

/-- The number of texts that were replaced by calls. -/
def callSites : Outcome → Nat
  | transformed messages _ => messages
  | _ => 0

def exempted : Outcome → Nat
  | transformed _ n => n
  | unchanged n => n
  | failed _ => 0

def failure? : Outcome → Option Failure
  | failed failure => some failure
  | _ => none

end Outcome

structure Summary where
  /-- What has become of each source file. -/
  outcomes : List Outcome
  /-- The number of different messages. -/
  messages : Nat
  pool : Pool.Stats
  /-- The dictionary, and the template behind it. -/
  written : List Path
deriving DecidableEq, Repr

namespace Summary

def scanned (s : Summary) : Nat := s.outcomes.length

def transformed (s : Summary) : Nat := s.outcomes.countP (·.isTransformed)

def callSites (s : Summary) : Nat := s.outcomes.foldr (·.callSites + ·) 0

def exempted (s : Summary) : Nat := s.outcomes.foldr (·.exempted + ·) 0

def failures (s : Summary) : List Failure := s.outcomes.filterMap (·.failure?)

end Summary

/-! ### What ends an extraction -/

inductive ExtractionError where
  | invalid (error : ConfigError)
  | unusable (error : OptionsError)
  | dictionary (error : WriteError)
  | template (error : WriteError)
deriving DecidableEq, Repr

def ExtractionError.message : ExtractionError → String
  | invalid error => error.message
  | unusable error => error.message
  | dictionary error => error.message
  | template (.file path fault) =>
    "Failed to write catalog: " ++ path.text ++ ": " ++ fault.message
  | template error => error.message

/-! ### Extracting -/

namespace Extraction

/-- A path of a configuration, which begins in the root unless it is absolute. -/
def resolve (root : Path) (path : String) : Path :=
  let p : Path := ⟨path⟩
  if p.isAbsolute then p else root.join ((p.relativeTo? ⟨"."⟩).getD p).text

def sources (c : Config) (root : Path) (fs : FileSystem) : List Path :=
  fs.scan root ⟨c.includes, c.ignores, c.ignoresTests⟩

def check (c : Config) : FileM ExtractionError Unit :=
  match c.validate with
  | .ok () => pure ()
  | .error error => throw (.invalid error)

/-- The pass of an extraction, on a store in which nothing is yet. -/
def pass (c : Config) (root : Path) : FileM ExtractionError (List Outcome × Store) := fun fs =>
  match Pass.run (sources c root fs) root c.options (c.outDir.map (resolve root)) {} fs with
  | .ok (outcomes, store, fs) => .ok (outcomes, store) fs
  | .error error => .error (.unusable error) fs

def write (p : Path) (text : String) : FileM WriteError Unit := do
  FileM.createParent p
  FileM.createFile p text

def writeDictionary (c : Config) (root : Path) (s : Store) : FileM ExtractionError Path := do
  let path := resolve root c.dictionary.output
  (write path (s.renderDictionary c.dictionary.style)).adaptExcept .dictionary
  return path

def writeTemplate (c : Config) (root : Path) (s : Store) :
    FileM ExtractionError (Option Path) := do
  match c.template with
  | none => return none
  | some output =>
    let path := resolve root output
    (write path s.renderTemplate).adaptExcept .template
    return some path

def run (c : Config) (root : Path) : FileM ExtractionError Summary := do
  check c
  let (outcomes, store) ← pass c root
  let dictionary ← writeDictionary c root store
  let template ← writeTemplate c root store
  return ⟨outcomes, store.size, store.pool.stats, dictionary :: template.toList⟩

end Extraction

end Phrasebook
