import Phrasebook.Digest.Sha256

/-!
# Message ids

The id of a text in a context is the beginning of its hash. When another pair owns that id, the
text is hashed again together with the id that is taken, two digits longer, and so on, until an id
is found that no other pair owns, or ids cannot get longer and were tried often enough.
`IdTable.assign` gives a pair the id that is found, and the same one ever after.
-/

namespace Phrasebook

def minIdLength : Nat := 4

def maxIdLength : Nat := 40

/-- How often a pair is hashed again once its ids are as long as they get. -/
def retriesAtMaxLength : Nat := 16

/-- A text and the context that tells what it means. -/
structure MessageKey where
  text : String
  context : Option String
deriving DecidableEq, Repr

namespace MessageKey

/-- An empty context is none. -/
def of (text : String) (context : Option String) : MessageKey :=
  ⟨text, context.filter (· ≠ "")⟩

/-- What is hashed for the first candidate. -/
def hashInput (key : MessageKey) : String :=
  match key.context with
  | some context => key.text ++ "::" ++ context
  | none => key.text

/-- The id that is tried when another pair owns `taken`. -/
def rehash (key : MessageKey) (taken : String) (length : Nat) : String :=
  Digest.truncated (key.text ++ ":" ++ taken) length

end MessageKey

def clampIdLength (length : Nat) : Nat := max minIdLength (min length maxIdLength)

/-- The ids in use and the pairs that own them, in the order in which they were given out. -/
structure IdTable where
  entries : List (String × MessageKey) := []
deriving Repr

namespace IdTable

def owner? (t : IdTable) (id : String) : Option MessageKey :=
  (t.entries.find? (·.1 == id)).map (·.2)

def id? (t : IdTable) (key : MessageKey) : Option String :=
  (t.entries.find? (·.2 == key)).map (·.1)

/-- No other pair owns the id. -/
def isFreeFor (t : IdTable) (key : MessageKey) (id : String) : Bool :=
  match t.owner? id with
  | some owner => owner == key
  | none => true

/-- The first free id from `id` on, which has `length` digits. The next one to be tried has two
digits more, up to the largest length; from there on `retries` counts how often a pair was hashed
again. -/
def search (t : IdTable) (key : MessageKey) (length retries : Nat) (id : String) : Option String :=
  if t.isFreeFor key id then some id
  else if length < maxIdLength then
    let next := min (length + 2) maxIdLength
    t.search key next retries (key.rehash id next)
  else if retries < retriesAtMaxLength then
    t.search key maxIdLength (retries + 1) (key.rehash id maxIdLength)
  else none
termination_by maxIdLength - length + (retriesAtMaxLength - retries)

/-- The id of a pair; `none` when other pairs own all ids that are tried for it. -/
def assign (t : IdTable) (key : MessageKey) (length : Nat) : Option (String × IdTable) :=
  match t.id? key with
  | some id => some (id, t)
  | none =>
    let length := clampIdLength length
    (t.search key length 0 (Digest.truncated key.hashInput length)).map fun id =>
      (id, ⟨t.entries ++ [(id, key)]⟩)

def size (t : IdTable) : Nat := t.entries.length

end IdTable

end Phrasebook
