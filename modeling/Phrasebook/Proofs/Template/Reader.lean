import Phrasebook.Text.Split

/-!
# Reading templates

A template is read line by line: blank lines and comments are dropped, a line with a keyword begins
a field, and a line that is only quoted text goes on with it. What stands between the quotes of a
field is joined first, then its escapes are undone. An entry is a source text and its translation,
possibly with a context in front of them. Whatever else stands in a text, `read` gives nothing for
it.
-/

namespace Phrasebook.Template

/-! ### Quoted text -/

/-- The inside of a quoted text that ends with the closing quote, from behind the opening one on. -/
def inside? : List Char → Option (List Char)
  | [] => none
  | [c] => if c = '"' then some [] else none
  | c :: d :: cs =>
    if c = '"' then none
    else if c = '\\' then (inside? cs).map (c :: d :: ·)
    else (inside? (d :: cs)).map (c :: ·)

theorem inside?_cons {c : Char} (hquote : c ≠ '"') (hescape : c ≠ '\\') (cs : List Char) :
    inside? (c :: cs) = (inside? cs).map (c :: ·) := by
  cases cs with
  | nil => simp [inside?, hquote]
  | cons d cs => rw [inside?, if_neg hquote, if_neg hescape]

/-- The character that a letter behind a backslash stands for. -/
def escapeValue? : Char → Option Char
  | '\\' => some '\\'
  | '"' => some '"'
  | 'a' => some (Char.ofNat 0x07)
  | 'b' => some (Char.ofNat 0x08)
  | 'f' => some (Char.ofNat 0x0c)
  | 'n' => some '\n'
  | 'r' => some '\r'
  | 't' => some '\t'
  | 'v' => some (Char.ofNat 0x0b)
  | _ => none

def unescape : List Char → Option (List Char)
  | [] => some []
  | [c] => if c = '\\' then none else some [c]
  | c :: d :: cs =>
    if c = '\\' then (escapeValue? d).bind fun x => (unescape cs).map (x :: ·)
    else (unescape (d :: cs)).map (c :: ·)

theorem unescape_cons {c : Char} (h : c ≠ '\\') (cs : List Char) :
    unescape (c :: cs) = (unescape cs).map (c :: ·) := by
  cases cs with
  | nil => simp [unescape, h]
  | cons d cs => rw [unescape, if_neg h]

/-! ### Lines -/

inductive Keyword where
  | context
  | source
  | translation
deriving DecidableEq, Repr

namespace Keyword

def name : Keyword → String
  | context => "msgctxt"
  | source => "msgid"
  | translation => "msgstr"

def ofName? (cs : List Char) : Option Keyword :=
  [context, source, translation].find? (·.name.toList == cs)

end Keyword

inductive Line where
  /-- Nothing, or a comment. -/
  | skipped
  /-- A keyword and what stands between the quotes behind it. -/
  | field (k : Keyword) (raw : List Char)
  /-- More of the same field. -/
  | more (raw : List Char)

def readLine : List Char → Option Line
  | [] => some .skipped
  | c :: cs =>
    if c = '#' then some .skipped
    else if c = '"' then (inside? cs).map .more
    else
      match Keyword.ofName? ((c :: cs).takeWhile (· != ' ')), (c :: cs).dropWhile (· != ' ') with
      | some k, ' ' :: '"' :: rest => (inside? rest).map (.field k)
      | _, _ => none

/-- The quoted texts in front of the first field, and the fields, each with its texts joined. -/
def collectFields : List Line → List (List Char) × List (Keyword × List Char)
  | [] => ([], [])
  | .skipped :: lines => collectFields lines
  | .more raw :: lines =>
    let (raws, fields) := collectFields lines
    (raw :: raws, fields)
  | .field k raw :: lines =>
    let (raws, fields) := collectFields lines
    ([], (k, (raw :: raws).flatten) :: fields)

/-! ### Entries -/

structure Entry where
  context : Option String := none
  text : String
  translation : String := ""
deriving DecidableEq, Repr

def Entry.fields (e : Entry) : List (Keyword × String) :=
  (e.context.map (Keyword.context, ·)).toList ++ [(.source, e.text), (.translation, e.translation)]

def entries? : List (Keyword × String) → Option (List Entry)
  | [] => some []
  | (.source, text) :: (.translation, translation) :: fields =>
    (entries? fields).map (⟨none, text, translation⟩ :: ·)
  | (.context, context) :: (.source, text) :: (.translation, translation) :: fields =>
    (entries? fields).map (⟨some context, text, translation⟩ :: ·)
  | _ => none

theorem entries?_fields (es : List Entry) : entries? (es.flatMap Entry.fields) = some es := by
  induction es with
  | nil => rfl
  | cons e es ih =>
    obtain ⟨context | context, text, translation⟩ := e <;>
      simp [Entry.fields, entries?, ih]

/-- A field with its escapes undone. -/
def unescapeField (field : Keyword × List Char) : Option (Keyword × String) :=
  (unescape field.2).map fun cs => (field.1, String.ofList cs)

/-- The entries of a template. -/
def read (text : String) : Option (List Entry) := do
  match collectFields (← (Text.splitOn '\n' text.toList).mapM readLine) with
  | ([], fields) => entries? (← fields.mapM unescapeField)
  | _ => none

end Phrasebook.Template
