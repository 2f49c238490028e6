import Phrasebook.Script.Grammar

/-!
# Modules

A module is a text that has been parsed. Its offsets count from behind a byte order mark, which is
skipped. When a text cannot be parsed, `longestPrefix` gives the module of its longest beginning
of whole lines that can be.
-/

namespace Phrasebook.Script

structure Module where
  /-- The text without a byte order mark. -/
  text : List Char
  items : List Node
  /-- The comments that lead tokens, by the places of the tokens. -/
  comments : List (Nat × List Comment)

namespace Module

def leadingAt (m : Module) (place : Nat) : List Comment := (m.comments.lookup place).getD []

/-- Line and column of a place, from one. A line ends with a line feed, a carriage return or both
of them; columns are counted in UTF-16 units. -/
def lineColFrom (line col : Nat) : Nat → List Char → Nat × Nat
  | 0, _ => (line, col)
  | _ + 1, [] => (line, col)
  | n + 1, c :: rest =>
    let n := n + 1 - c.utf8Size
    let ends := c = '\n' ∨ (c = '\r' ∧ rest.head? ≠ some '\n')
    if ends then lineColFrom (line + 1) 1 n rest else lineColFrom line (col + Text.units16 c) n rest
termination_by structural _ cs => cs

def lineCol (m : Module) (place : Nat) : Nat × Nat := lineColFrom 1 1 place m.text

end Module

def skipByteOrderMark : List Char → List Char
  | c :: cs => if c.toNat = 0xfeff then cs else c :: cs
  | [] => []

def items (depth : Nat) : Parser (List Node) :=
  Parser.many (Parser.is .eof) (Grammar.moduleItem (rules depth))

/-- Parses a text. With `jsx` tags of elements are allowed and assertions in angle brackets are
not. -/
def parse (jsx : Bool) (text : List Char) : Except SyntaxFailure Module :=
  let text := skipByteOrderMark text
  let lexer := Lexer.start text
  match items (depthFor lexer.size) { jsx } lexer with
  | .ok items lexer => .ok ⟨text, items, lexer.comments⟩
  | .error failure _ => .error failure

/-- The value that `parse` has for the longest list of which `reversed`, from one of its line
feeds on, is the reversal. -/
def searchLines {α : Type} (parse : List Char → Option α) : List Char → Option α
  | [] => none
  | c :: rest =>
    if c = '\n' then
      match parse (c :: rest).reverse with
      | some a => some a
      | none => searchLines parse rest
    else searchLines parse rest

/-- The value that `parse` has for the longest beginning of `text` that has one, ends with a line
feed and ends in front of the byte `offset`. An offset that is no place of the text counts as its
end. -/
def longestPrefix {α : Type} (parse : List Char → Option α) (text : List Char) (offset : Nat) :
    Option α :=
  searchLines parse ((Text.takeBytes? offset text).getD text).reverse

/-- What `read` makes of a text in which it finds items. -/
def withItems {ε : Type} (read : List Char → Except ε Module) (text : List Char) : Option Module :=
  (read text).toOption.filter (!·.items.isEmpty)

/-- Parses a beginning of a text that has at least one item. -/
def parsePrefix (jsx : Bool) (text : List Char) (offset : Nat) : Option Module :=
  longestPrefix (withItems (parse jsx)) text offset

/-- Whether a file is one in which tags of elements are allowed. -/
def allowsTags (file : String) : Bool :=
  ".tsx".toList.isSuffixOf file.toList || ".jsx".toList.isSuffixOf file.toList

end Phrasebook.Script
