import Phrasebook.Doc.Comment

/-!
# Message functions

A candidate is a function in an object literal whose result is one known text. Only the bytes of
the expression that it returns are ever replaced.
-/

namespace Phrasebook

/-- How a message function is written. -/
inductive Shape where
  /-- `() => "text"` -/
  | arrowExpression
  /-- An arrow function with a block. -/
  | arrowBlock
  /-- A function as the value of a property. -/
  | function
  /-- `name() …` -/
  | method
deriving DecidableEq, Repr

/-- A parameter that is a name. Its index counts patterns but not `this`. -/
structure Param where
  index : Nat
  name : String
  type : Option String := none
deriving DecidableEq, Repr

structure Candidate where
  shape : Shape
  /-- The key of the property. -/
  property : String
  text : String
  /-- The returned expression, by its first byte and the byte behind it. -/
  start : Nat
  stop : Nat
  params : List Param
  doc : Option DocComment
  line : Nat
  col : Nat
deriving DecidableEq, Repr

namespace Candidate

def context (c : Candidate) : Option String := c.doc.bind DocComment.context

/-- A text behind its mark, if there is one. -/
def behind (mark : String) : Option String → String
  | none => ""
  | some text => mark ++ text

/-- What a translator is told about a parameter: its name, type and description. The type in the
documentation wins over the one in the source. -/
def paramLine (docs : List ParamDoc) (p : Param) : String :=
  let doc := docs.find? (·.name == p.name)
  let type := (doc.bind (·.type)).or p.type
  p.name ++ behind ": " type ++ behind " - " (doc.bind (·.description))

/-- What a translator is told: the prose of the documentation, then a line for each parameter. -/
def commentLines (c : Candidate) : List String :=
  let prose := (c.doc.map (·.description)).filter (· ≠ "")
  let docs := (c.doc.map (·.params)).getD []
  prose.toList ++ c.params.map (paramLine docs)

/-- The lines of the comment as one text, if there are any. -/
def comment (c : Candidate) : Option String :=
  match c.commentLines with
  | [] => none
  | lines => some (String.ofList (Text.join ['\n'] (lines.map String.toList)))

end Candidate

end Phrasebook
