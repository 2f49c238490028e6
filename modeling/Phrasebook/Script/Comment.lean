import Phrasebook.Cursor
import Phrasebook.Script.LineEnd
import Phrasebook.Script.Token
import Phrasebook.Text.Blank

/-!
# Comments between tokens

Between two tokens lie blanks and comments. A comment leads the token after it unless it belongs
to the token in front of it: `Gap` collects the leading ones and notes whether a line ends in the
gap.
-/

namespace Phrasebook.Script

structure Comment where
  isBlock : Bool
  /-- What stands between the signs that begin and end the comment. -/
  text : List Char
deriving DecidableEq

structure Gap where
  after : Cursor
  lineBreak : Bool
  leading : List Comment := []
  /-- Where the next token begins if not behind the gap. -/
  tokenStart : Option Nat := none

/-- The text of a block comment and the place behind its end; `none` when it has no end. -/
def blockCommentFrom (pos : Nat) : List Char → Option (List Char × Cursor)
  | [] => none
  | '*' :: '/' :: rest => some ([], ⟨rest, pos + 2⟩)
  | c :: rest =>
    (blockCommentFrom (pos + c.utf8Size) rest).map fun (text, after) => (c :: text, after)

def isSpace (c : Char) : Bool := Text.isBlank c || c.toNat == 0xfeff

/-- A sign that begins a comment up to the end of the line. -/
structure LineCommentSign where
  sign : String
  /-- How many characters of the sign are not in the text of the comment. -/
  length : Nat := sign.length
  /-- Whether it begins a comment only as the first sign of a line. -/
  startsLine : Bool := false
  /-- Whether the token behind the comment begins with the sign. -/
  startsToken : Bool := true

def lineCommentSigns : List LineCommentSign := [
  { sign := "//", startsToken := false },
  { sign := "<!--" },
  { sign := "-->", startsLine := true },
  { sign := "<<<<<<< ", length := 7, startsLine := true },
  { sign := "=======", startsLine := true },
  { sign := ">>>>>>> ", startsLine := true }]

namespace Gap

def lineCommentSign? (g : Gap) : Option LineCommentSign :=
  lineCommentSigns.find? fun s => g.after.startsWith s.sign && (g.lineBreak || !s.startsLine)

def add (g : Gap) (leads : Bool) (comment : Comment) : Gap :=
  if leads then { g with leading := g.leading ++ [comment] } else g

/-- Skips one blank or comment behind the token `previous`. -/
def step (previous : Option Kind) (g : Gap) : Option Gap :=
  match g.after.rest with
  | [] => none
  | '/' :: '*' :: rest =>
    match blockCommentFrom (g.after.pos + 2) rest with
    | none => some { g with after := g.after.advance (rest.length + 2) }
    | some (text, after) =>
      let belongs := previous.any Kind.keepsBlockComment || after.startsWith ";"
      some <|
        { g with after, lineBreak := g.lineBreak || text.any isLineEnd }.add
          (g.lineBreak || !belongs) ⟨true, text⟩
  | c :: _ =>
    if isSpace c then
      some { g with after := g.after.advance 1, lineBreak := g.lineBreak || isLineEnd c }
    else
      g.lineCommentSign?.map fun s =>
        let (text, after) := (g.after.advance s.length).span (!isLineEnd ·)
        let tokenStart := g.tokenStart <|> if s.startsToken then some g.after.pos else none
        { g with after, tokenStart }.add (g.lineBreak || !previous.any Kind.keepsLineComment)
          ⟨false, text⟩

/-- Skips up to `n` blanks and comments. -/
def run (previous : Option Kind) : Nat → Gap → Gap
  | 0, g => g
  | n + 1, g =>
    match g.step previous with
    | some g => run previous n g
    | none => g

end Gap

end Phrasebook.Script
