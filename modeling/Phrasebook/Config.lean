import Phrasebook.Dictionary
import Phrasebook.Glob
import Phrasebook.Json.Reader
import Phrasebook.Options

/-!
# Configurations

What a project says about where its sources are, how they are transformed and where the results
go. A configuration is written as a JSON object and read from one; what is not given has its
default value.
-/

namespace Phrasebook

structure DictionaryConfig where
  output : String := "i18n/messages.json"
  style : DictionaryStyle := {}
deriving DecidableEq, Repr

structure Config where
  includes : List String := ["src"]
  ignores : List String := []
  ignoresTests : Bool := true
  options : Options := {}
  /-- Where transformed sources are written. -/
  outDir : Option String := none
  dictionary : DictionaryConfig := {}
  /-- Where the template for translators is written. -/
  template : Option String := none
deriving DecidableEq, Repr

namespace Config

/-! ### Writing -/

def argModes : List (String × ArgMode) := [("named", .named), ("indexed", .indexed)]

def argModeName : ArgMode → String
  | .named => "named"
  | .indexed => "indexed"

/-- A member that is left out when there is no value. -/
def optionalMember (key : String) (value : Option String) : List (String × Json) :=
  value.toList.map fun s => (key, .text s)

def dictionaryToJson (d : DictionaryConfig) : Json :=
  .object <| ("output", .text d.output) :: optionalMember "topLevelKey" d.style.topLevelKey
    ++ [("indent", .nat d.style.indent)]

def toJson (c : Config) : Json :=
  .object <| [
    ("includes", .array (c.includes.map .text)),
    ("ignores", .array (c.ignores.map .text)),
    ("ignoreTestFiles", .bool c.ignoresTests),
    ("argMode", .text (argModeName c.options.argMode)),
    ("setDefaultValue", .bool c.options.setDefault),
    ("debug", .bool c.options.debug),
    ("hashLength", .nat c.options.idLength),
    ("runtimeId", .text c.options.runtimeId),
    ("runtimeModule", .text c.options.runtimeModule)]
    ++ optionalMember "outDir" c.outDir
    ++ ("json", dictionaryToJson c.dictionary)
      :: c.template.toList.map fun s => ("catalog", .object [("output", .text s)])

/-- The text of a configuration in which nothing is set. -/
def defaultText : String := (toJson {}).pretty 2

/-! ### Reading -/

open Json (Reader)

def dictionaryFields : List (Reader.Field DictionaryConfig) := [
  ⟨"output", fun d => return { d with output := ← Reader.text }⟩,
  ⟨"topLevelKey", fun d =>
    return { d with style.topLevelKey := ← Reader.optional Reader.text }⟩,
  ⟨"indent", fun d => return { d with style.indent := ← Reader.nat }⟩]

def templateFields : List (Reader.Field (Option String)) := [
  ⟨"output", fun _ => Reader.optional Reader.text⟩]

def fields : List (Reader.Field Config) := [
  ⟨"includes", fun c => return { c with includes := ← Reader.list Reader.text }⟩,
  ⟨"ignores", fun c => return { c with ignores := ← Reader.list Reader.text }⟩,
  ⟨"ignoreTestFiles", fun c => return { c with ignoresTests := ← Reader.bool }⟩,
  ⟨"argMode", fun c => return { c with options.argMode := ← Reader.choice argModes }⟩,
  ⟨"setDefaultValue", fun c => return { c with options.setDefault := ← Reader.bool }⟩,
  ⟨"debug", fun c => return { c with options.debug := ← Reader.bool }⟩,
  ⟨"hashLength", fun c => return { c with options.idLength := ← Reader.nat }⟩,
  ⟨"runtimeId", fun c => return { c with options.runtimeId := ← Reader.text }⟩,
  ⟨"runtimeModule", fun c => return { c with options.runtimeModule := ← Reader.text }⟩,
  ⟨"outDir", fun c => return { c with outDir := ← Reader.optional Reader.text }⟩,
  ⟨"json", fun c => return { c with
    dictionary := ← Reader.record "struct JsonConfig" dictionaryFields {} }⟩,
  ⟨"catalog", fun c => return { c with
    template := ← Reader.record "struct CatalogConfig" templateFields none }⟩]

def parse (text : String) : Except Json.ReadError Config :=
  (Reader.record "struct Config" fields {}).run text

end Config

/-! ### Checking -/

inductive ConfigError where
  | ignored (pattern : String) (error : GlobError)
  | included (pattern : String) (error : GlobError)
  | idLength (length : Nat)
  | options (error : OptionsError)
deriving DecidableEq, Repr

namespace ConfigError

def patternMessage (place pattern : String) (error : GlobError) : String :=
  "Invalid glob pattern in '" ++ place ++ "': \"" ++ pattern ++ "\": " ++ error.message

def message : ConfigError → String
  | ignored pattern error => patternMessage "ignores" pattern error
  | included pattern error => patternMessage "includes" pattern error
  | idLength length =>
    "Invalid 'hashLength': " ++ toString length ++ " (expected " ++ toString minIdLength ++ "..="
      ++ toString maxIdLength ++ ")"
  | options error => "Invalid transform settings: " ++ error.message

end ConfigError

namespace Config

/-- The first pattern that cannot be read makes an error. -/
def checkPatterns (error : String → GlobError → ConfigError) :
    List String → Except ConfigError Unit
  | [] => .ok ()
  | pattern :: patterns =>
    match Glob.parse pattern with
    | .ok _ => checkPatterns error patterns
    | .error e => .error (error pattern e)

/-- Whether an included path is checked as a pattern. -/
def hasWildcard (s : String) : Bool := s.toList.any fun c => c == '*' || c == '?'

def validate (c : Config) : Except ConfigError Unit := do
  checkPatterns .ignored c.ignores
  checkPatterns .included (c.includes.filter hasWildcard)
  if c.options.idLength < minIdLength ∨ maxIdLength < c.options.idLength then
    .error (.idLength c.options.idLength)
  c.options.validate.mapError .options

end Config

end Phrasebook
