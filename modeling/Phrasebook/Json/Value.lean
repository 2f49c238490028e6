import Phrasebook.Text.Hex

/-!
# JSON values and how they are written

The members of an object keep their order. `compact` writes no white space, `pretty n` puts every
member and element on a line of its own, indented by `n` spaces a level.
-/

namespace Phrasebook

inductive Json where
  | null
  | bool (b : Bool)
  | nat (n : Nat)
  | text (s : String)
  | array (items : List Json)
  | object (members : List (String × Json))

namespace Json

/-- A character inside a quoted text: the quote, the backslash and the controls below U+0020 are
escaped, all others stand for themselves. -/
def escapeChar (c : Char) : List Char :=
  if c = '"' then ['\\', '"']
  else if c = '\\' then ['\\', '\\']
  else if c = '\n' then ['\\', 'n']
  else if c = '\r' then ['\\', 'r']
  else if c = '\t' then ['\\', 't']
  else if c.toNat = 0x08 then ['\\', 'b']
  else if c.toNat = 0x0c then ['\\', 'f']
  else if c.toNat < 0x20 then
    '\\' :: 'u' :: Text.hexDigits4 c.toNat
  else [c]

def quote (s : String) : List Char := '"' :: s.toList.flatMap escapeChar ++ ['"']

def digits (n : Nat) : List Char := (Nat.toDigits 10 n)

/-- How the parts of an array or object are laid out: `indent` spaces a level on lines of their
own, or all on one line. -/
inductive Layout where
  | compact
  | pretty (indent : Nat)

/-- What stands in front of a part at a level of nesting. -/
def Layout.lineBreak (layout : Layout) (level : Nat) : List Char :=
  match layout with
  | .compact => []
  | .pretty n => '\n' :: List.replicate (n * level) ' '

/-- What stands between a key and its value. -/
def Layout.colon : Layout → List Char
  | .compact => [':']
  | .pretty _ => [':', ' ']

mutual

def write (layout : Layout) (level : Nat) : Json → List Char
  | .null => "null".toList
  | .bool true => "true".toList
  | .bool false => "false".toList
  | .nat n => digits n
  | .text s => quote s
  | .array [] => ['[', ']']
  | .array (x :: xs) =>
    '[' :: layout.lineBreak (level + 1) ++ write layout (level + 1) x
      ++ writeItems layout (level + 1) xs ++ layout.lineBreak level ++ [']']
  | .object [] => ['\x7b', '\x7d']
  | .object ((key, x) :: members) =>
    '\x7b' :: layout.lineBreak (level + 1) ++ quote key ++ layout.colon
      ++ write layout (level + 1) x ++ writeMembers layout (level + 1) members
      ++ layout.lineBreak level ++ ['\x7d']

/-- The items after the first one. -/
def writeItems (layout : Layout) (level : Nat) : List Json → List Char
  | [] => []
  | x :: xs => ',' :: layout.lineBreak level ++ write layout level x ++ writeItems layout level xs

/-- The members after the first one. -/
def writeMembers (layout : Layout) (level : Nat) : List (String × Json) → List Char
  | [] => []
  | (key, x) :: members =>
    ',' :: layout.lineBreak level ++ quote key ++ layout.colon ++ write layout level x
      ++ writeMembers layout level members

end

def compact (j : Json) : String := String.ofList (j.write .compact 0)

def pretty (j : Json) (indent : Nat) : String := String.ofList (j.write (.pretty indent) 0)

end Json

end Phrasebook
