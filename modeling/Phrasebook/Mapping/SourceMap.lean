import Phrasebook.Json.Value
import Phrasebook.Mapping.Segments

/-!
# Source maps

A source map of version 3 for one generated file and the one source it comes from, which goes by
the same name.
-/

namespace Phrasebook

structure SourceMap where
  file : String
  source : String
  mappings : String
deriving DecidableEq, Repr

namespace SourceMap

def ofLinks (file source : String) (links : List Mapping.Link) : SourceMap :=
  ⟨file, source, String.ofList (Mapping.encode (Mapping.linesOf links))⟩

def segments? (m : SourceMap) : Option (List (List Mapping.Segment)) :=
  Mapping.decode m.mappings.toList

def toJson (m : SourceMap) : Json :=
  .object [("version", .nat 3), ("file", .text m.file), ("sources", .array [.text m.file]),
    ("sourcesContent", .array [.text m.source]), ("names", .array []),
    ("mappings", .text m.mappings)]

end SourceMap

end Phrasebook
