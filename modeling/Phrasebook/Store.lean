import Phrasebook.Message
import Phrasebook.Message.Id
import Phrasebook.Pool

/-!
# The store of extracted messages

Messages by ascending id, the ids in use, and the pool of all texts seen. `clear` starts a new
pass: it forgets messages and ids and keeps the pool.
-/

namespace Phrasebook

structure Store where
  messages : List Message := []
  ids : IdTable := {}
  pool : Pool := {}
deriving Repr

/-- Adds a message to a list with ascending ids; a message with the same id absorbs it. -/
def insertMessage (m : Message) : List Message → List Message
  | [] => [m]
  | x :: xs =>
    if m.id = x.id then x.merge m :: xs
    else if m.id < x.id then m :: x :: xs
    else x :: insertMessage m xs

namespace Store

def add (s : Store) (m : Message) : Store := { s with messages := insertMessage m s.messages }

def get? (s : Store) (id : String) : Option Message := s.messages.find? (·.id == id)

def size (s : Store) : Nat := s.messages.length

def clear (s : Store) : Store := { s with messages := [], ids := {} }

def intern (s : Store) (text : String) : Store := { s with pool := (s.pool.intern text).2 }

/-- The id of a text in a context; `none` when no id is left for it. -/
def assignId (s : Store) (text : String) (context : Option String) (length : Nat) :
    Option (String × Store) :=
  (s.ids.assign (.of text context) length).map fun (id, ids) => (id, { s with ids })

end Store

end Phrasebook
