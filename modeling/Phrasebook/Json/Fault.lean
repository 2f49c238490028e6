import Phrasebook.Text.Quoted

/-!
# What is wrong with a JSON text

A text that should be a JSON value of a certain kind can end too early, be no JSON at all, or be
something else than what was expected. A fault says which, and where the reader stood then.
-/

namespace Phrasebook.Json

/-- What stands in the place of something else. -/
inductive Found where
  | null
  | bool (b : Bool)
  | integer (i : Int)
  /-- A number with a fraction, an exponent or too many digits, as it is written out. -/
  | decimal (text : String)
  | text (s : String)
  | array
  | object
deriving DecidableEq, Repr

def ticked (s : String) : String := "`" ++ s ++ "`"

def Found.describe : Found → String
  | null => "null"
  | bool b => "boolean " ++ ticked (if b then "true" else "false")
  | integer i => "integer " ++ ticked (toString i)
  | decimal s => "floating point " ++ ticked s
  | text s => "string " ++ Text.quoted s
  | array => "sequence"
  | object => "map"

inductive Cause where
  | endInArray
  | endInObject
  | endInText
  | endInValue
  | noColon
  | noArrayEnd
  | noObjectEnd
  | badWord
  | noValue
  | badEscape
  | badNumber
  | numberTooLarge
  | controlCharacter
  | keyNotText
  | loneSurrogate
  | halfPair
  | trailingComma
  | trailingCharacters
  | unexpected (found : Found) (expected : String)
  | outOfRange (i : Int) (expected : String)
  | unknownChoice (name : String) (choices : List String)
  | duplicateField (name : String)
deriving DecidableEq, Repr

namespace Cause

/-- The choices of which one is expected. -/
def oneOf : List String → String
  | [a] => ticked a
  | [a, b] => ticked a ++ " or " ++ ticked b
  | choices => "one of " ++ String.intercalate ", " (choices.map ticked)

def message : Cause → String
  | endInArray => "EOF while parsing a list"
  | endInObject => "EOF while parsing an object"
  | endInText => "EOF while parsing a string"
  | endInValue => "EOF while parsing a value"
  | noColon => "expected `:`"
  | noArrayEnd => "expected `,` or `]`"
  | noObjectEnd => "expected `,` or `\x7d`"
  | badWord => "expected ident"
  | noValue => "expected value"
  | badEscape => "invalid escape"
  | badNumber => "invalid number"
  | numberTooLarge => "number out of range"
  | controlCharacter => "control character (\\u0000-\\u001F) found while parsing a string"
  | keyNotText => "key must be a string"
  | loneSurrogate => "lone leading surrogate in hex escape"
  | halfPair => "unexpected end of hex escape"
  | trailingComma => "trailing comma"
  | trailingCharacters => "trailing characters"
  | unexpected found expected => "invalid type: " ++ found.describe ++ ", expected " ++ expected
  | outOfRange i expected =>
    "invalid value: " ++ (Found.integer i).describe ++ ", expected " ++ expected
  | unknownChoice name choices =>
    "unknown variant " ++ ticked name ++ ", expected " ++ oneOf choices
  | duplicateField name => "duplicate field " ++ ticked name

end Cause

inductive Category where
  /-- The text ends too early. -/
  | unfinished
  /-- The text is no JSON. -/
  | malformed
  /-- The text is JSON but not what was expected. -/
  | unfit
deriving DecidableEq, Repr

def Cause.category : Cause → Category
  | endInArray | endInObject | endInText | endInValue => .unfinished
  | unexpected _ _ | outOfRange _ _ | unknownChoice _ _ | duplicateField _ => .unfit
  | _ => .malformed

/-- A cause and the line and column of its place; columns count the bytes in front of it. -/
structure ReadError where
  cause : Cause
  line : Nat
  column : Nat
deriving DecidableEq, Repr

def ReadError.message (e : ReadError) : String :=
  e.cause.message ++ " at line " ++ toString e.line ++ " column " ++ toString e.column

/-- Line and column of a byte of a text. -/
def lineColumnFrom (line column : Nat) : Nat → List Char → Nat × Nat
  | n, [] => (line, column + n)
  | n, c :: cs =>
    if n < c.utf8Size then (line, column + n)
    else if c = '\n' then lineColumnFrom (line + 1) 0 (n - c.utf8Size) cs
    else lineColumnFrom line (column + c.utf8Size) (n - c.utf8Size) cs

end Phrasebook.Json
