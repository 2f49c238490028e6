import Phrasebook.Doc.Param
import Phrasebook.Text.Split

/-!
# Documentation comments

A block comment whose text begins with a star is documentation. Its lines, less the blanks around
them and one star in front, are a description and then tags. A line that begins with an at sign
begins a tag, any other line goes on with the tag before it or with the description.
-/

namespace Phrasebook

structure DocTag where
  name : String
  body : String
deriving DecidableEq, Repr

structure DocComment where
  /-- The lines in front of the first tag. -/
  prose : List String := []
  tags : List DocTag := []
deriving DecidableEq, Repr

namespace DocTag

def exempting : String := "notranslate"

def contextual : String := "context"

def parameter : String := "param"

/-- A tag from its line behind the at sign. -/
def ofLine (line : List Char) : DocTag where
  name := String.ofList (line.takeWhile (!Text.isBlank ·))
  body := String.ofList (Text.trim (ParamDoc.afterBlank line))

/-- Adds a line to the body, behind a space unless it is the first one. -/
def extend (tag : DocTag) (line : List Char) : DocTag :=
  let gap := if tag.body = "" then "" else " "
  { tag with body := tag.body ++ gap ++ String.ofList line }

/-- Tags are known by their names in small or capital letters. -/
def isNamed (tag : DocTag) (name : String) : Bool :=
  tag.name.toList.map Char.toLower == name.toList.map Char.toLower

end DocTag

namespace DocComment

/-- A line without the blanks around it and one star in front. -/
def content (line : List Char) : List Char :=
  match Text.trimStart line with
  | '*' :: rest => Text.trim rest
  | cs => Text.trim cs

/-- Adds a line, of which only the content is left. -/
def addLine (doc : DocComment) (line : List Char) : DocComment :=
  match line with
  | [] => doc
  | '@' :: rest => { doc with tags := doc.tags ++ [.ofLine rest] }
  | _ =>
    match doc.tags.getLast? with
    | some tag => { doc with tags := doc.tags.dropLast ++ [tag.extend line] }
    | none => { doc with prose := doc.prose ++ [String.ofList line] }

/-- The documentation in the text of a block comment, if it is any. -/
def parse (text : List Char) : Option DocComment :=
  match text with
  | '*' :: body => some ((Text.lines body).map content |>.foldl addLine {})
  | _ => none

/-- The prose on one line. -/
def description (doc : DocComment) : String :=
  String.ofList (Text.join [' '] (doc.prose.map String.toList))

def hasTag (doc : DocComment) (name : String) : Bool := doc.tags.any (·.isNamed name)

/-- The body of the first tag of a name, unless it is empty. -/
def tagValue (doc : DocComment) (name : String) : Option String :=
  ((doc.tags.find? (·.isNamed name)).map (·.body)).filter (· ≠ "")

def context (doc : DocComment) : Option String := doc.tagValue DocTag.contextual

/-- The function that is documented is not to be translated. -/
def exempts (doc : DocComment) : Bool := doc.hasTag DocTag.exempting

def params (doc : DocComment) : List ParamDoc :=
  (doc.tags.filter (·.isNamed DocTag.parameter)).filterMap fun tag =>
    ParamDoc.parse tag.body.toList

end DocComment

end Phrasebook
