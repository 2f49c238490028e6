import Phrasebook.Text.Alphabet
import Phrasebook.Text.Blank

/-!
# Documented parameters

The body of a parameter tag is an optional type in braces, a name, and a description behind blanks
and hyphens. A name may stand in brackets with a default value. `closingBrace` finds the brace
that closes an open one, counting those in between.
-/

namespace Phrasebook

structure ParamDoc where
  name : String
  type : Option String
  description : Option String
deriving DecidableEq, Repr

namespace ParamDoc

/-- The text in front of the brace that closes the last of `depth + 1` open ones, and the text
behind it. -/
def closingBrace (depth : Nat) : List Char → Option (List Char × List Char)
  | [] => none
  | c :: cs =>
    if c = '\x7b' then (closingBrace (depth + 1) cs).map fun (a, b) => (c :: a, b)
    else if c = '\x7d' then
      match depth with
      | 0 => some ([], cs)
      | depth + 1 => (closingBrace depth cs).map fun (a, b) => (c :: a, b)
    else (closingBrace depth cs).map fun (a, b) => (c :: a, b)

def isNameStart (c : Char) : Bool := Text.isAsciiLetter c || c == '_' || c == '$'

def isNameChar (c : Char) : Bool := Text.isWordChar c || c == '$'

/-- The name at the beginning of a text. -/
def bareName? : List Char → Option (List Char)
  | [] => none
  | c :: rest => if isNameStart c then some (c :: rest.takeWhile isNameChar) else none

/-- The name at the beginning of a text, with or without an open bracket in front of it. -/
def nameOf? : List Char → Option (List Char)
  | '[' :: rest => bareName? rest
  | cs => bareName? cs

/-- What follows the first blank. -/
def afterBlank (cs : List Char) : List Char := (cs.dropWhile (!Text.isBlank ·)).drop 1

/-- What may stand between a name and its description. -/
def isDash (c : Char) : Bool := c == '-' || c == ' '

def nonempty (cs : List Char) : Option String := if cs = [] then none else some (String.ofList cs)

/-- A name and a description. -/
def ofRest? (type : Option String) (cs : List Char) : Option ParamDoc :=
  (nameOf? cs).map fun name =>
    ⟨String.ofList name, type, nonempty (Text.trim ((afterBlank cs).dropWhile isDash))⟩

/-- The parameter that the body of a tag documents. A type that is not closed documents none. -/
def parse (body : List Char) : Option ParamDoc :=
  match Text.trim body with
  | '\x7b' :: rest =>
    (closingBrace 0 rest).bind fun (type, after) =>
      ofRest? (nonempty (Text.trim type)) (Text.trimStart after)
  | cs => ofRest? none cs

end ParamDoc

end Phrasebook
