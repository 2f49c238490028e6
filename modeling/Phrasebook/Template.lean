import Phrasebook.Store
import Phrasebook.Text.Split

/-!
# Catalog templates

A template lists the messages of a store for translators: the comments and locations of each, its
id as context, its text, and an empty text to fill in. A field is written on one line when it fits;
a longer one, or one with several lines, is cut behind its line ends and behind spaces into quoted
pieces on lines of their own.
-/

namespace Phrasebook

namespace Template

/-- The characters of a line, less its quotes. -/
def pieceWidth : Nat := 77

/-- The largest sum of the lengths of a field's name and text on one line. -/
def fieldWidth : Nat := 78

def escapeChar (c : Char) : List Char :=
  if c = '\\' then ['\\', '\\']
  else if c = '"' then ['\\', '"']
  else if c = '\n' then ['\\', 'n']
  else if c = '\r' then ['\\', 'r']
  else if c = '\t' then ['\\', 't']
  else [c]

def escape (cs : List Char) : List Char := cs.flatMap escapeChar

def consFirst (c : Char) : List (List Char) → List (List Char)
  | [] => [[c]]
  | p :: ps => (c :: p) :: ps

/-- Cuts an escaped text behind each backslash and `n`. -/
def cutLines : List Char → List (List Char)
  | [] => []
  | '\\' :: 'n' :: rest => ['\\', 'n'] :: cutLines rest
  | c :: rest => consFirst c (cutLines rest)

/-- Cuts a text behind each space. -/
def cutWords : List Char → List (List Char)
  | [] => []
  | ' ' :: rest => [' '] :: cutWords rest
  | c :: rest => consFirst c (cutWords rest)

/-- Puts words on lines, each on the current one as long as it fits there. -/
def fill (line : List Char) : List (List Char) → List (List Char)
  | [] => [line]
  | w :: ws =>
    if line ≠ [] ∧ pieceWidth < line.length + w.length then line :: fill w ws
    else fill (line ++ w) ws

def wrap (cs : List Char) : List (List Char) := fill [] (cutWords cs)

def quote (cs : List Char) : List Char := '"' :: cs ++ ['"']

/-- The lines of a field. -/
def field (name : String) (text : String) : List (List Char) :=
  let escaped := escape text.toList
  if text.toList.count '\n' ≤ 1 ∧ name.toList.length + escaped.length ≤ fieldWidth then
    [name.toList ++ ' ' :: quote escaped]
  else
    (name.toList ++ [' ', '"', '"']) :: ((cutLines escaped).flatMap wrap).map quote

def header : String := String.ofList <| [
  "Project-Id-Version: lingo 0.1.0", "POT-Creation-Date: ", "PO-Revision-Date: ",
  "Last-Translator: ", "Language-Team: ", "MIME-Version: 1.0",
  "Content-Type: text/plain; charset=UTF-8", "Content-Transfer-Encoding: 8bit", "Language: ",
  "Plural-Forms: nplurals=1; plural=0;"].flatMap (·.toList ++ ['\n'])

/-- Lines with a mark in front; none for an empty text. -/
def marked (mark : String) (lines : List (List Char)) : List (List Char) :=
  let text := Text.join ['\n'] lines
  if text = [] then [] else (Text.splitOn '\n' text).map (mark.toList ++ ·)

/-- The lines of a message. -/
def entry (m : Message) : List (List Char) :=
  marked "#. " (m.comments.flatMap fun c => Text.lines c.toList)
    ++ marked "#: " (m.locations.map (·.render.toList))
    ++ (if m.id = "" then [] else field "msgctxt" m.id)
    ++ field "msgid" m.text ++ field "msgstr" "" ++ [[]]

end Template

namespace Store

def renderTemplate (s : Store) : String :=
  let lines := [[]] ++ Template.field "msgid" "" ++ Template.field "msgstr" Template.header ++ [[]]
    ++ s.messages.flatMap Template.entry
  String.ofList (lines.flatMap (· ++ ['\n']))

end Store

end Phrasebook
