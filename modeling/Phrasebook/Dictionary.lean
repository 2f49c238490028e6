import Phrasebook.Json.Value
import Phrasebook.Store

/-!
# Dictionaries

A dictionary is a JSON object that maps the ids of all messages of a store to their texts, possibly
under a key of its own.
-/

namespace Phrasebook

structure DictionaryStyle where
  topLevelKey : Option String := none
  /-- Spaces a level; none at all for everything on one line. -/
  indent : Nat := 2
deriving DecidableEq, Repr

namespace Store

def dictionary (s : Store) (topLevelKey : Option String) : Json :=
  let entries := Json.object (s.messages.map fun m => (m.id, .text m.text))
  match topLevelKey with
  | some key => .object [(key, entries)]
  | none => entries

def renderDictionary (s : Store) (style : DictionaryStyle) : String :=
  let json := s.dictionary style.topLevelKey
  (if style.indent = 0 then json.compact else json.pretty style.indent) ++ "\n"

end Store

end Phrasebook
