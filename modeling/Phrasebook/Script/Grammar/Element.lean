import Phrasebook.Script.Grammar.Type

/-!
# Elements of markup

An element stands between two tags of one name or is a single tag. Inside a tag tokens are read as
elsewhere, except that names may have hyphens and strings have no escapes; between tags stands
text. The rules leave the sign that ends a tag in hand, since what follows it is read in one way
inside an element and in another behind it.
-/

namespace Phrasebook.Script

open Phrasebook.Script.Parser

namespace Grammar

variable (r : Rules)

/-- A name with hyphens. -/
def hyphenatedName : Parser String := do
  unless (← kind).isWord do unexpected
  modify Lexer.rereadHyphenated
  word

/-- The name of a tag: names with points between them, or a name in a space of names. -/
def tagName : Parser String := do
  let name ← hyphenatedName
  if ← eat .colon then return name ++ ":" ++ (← hyphenatedName)
  loop name fun name => do
    if ← eat .dot then return (name ++ "." ++ (← hyphenatedName), true)
    return (name, false)

/-- An expression in braces; the closing brace stays in hand. -/
def container : Parser (List Node) := do
  bump
  if ← is .braceClose then return []
  let _ ← eat .ellipsis
  let e ← r.fullExpression
  unless ← is .braceClose do unexpected
  return [e]

def attributeValue : Parser (List Node) := do
  let l ← get
  if l.here.startsWith "\"" || l.here.startsWith "'" then
    modify Lexer.rereadQuoted
    expect .string
    return []
  if ← is .braceOpen then
    let es ← container r
    expect .braceClose
    if es.isEmpty then failAt l.pos
    return es
  if ← is .less then
    let e ← r.element
    bump
    return [e]
  unexpected

def tagAttribute : Parser (List Node) := do
  if ← is .braceOpen then
    bump
    expect .ellipsis
    let e ← r.fullAssignment
    expect .braceClose
    return [e]
  let _ ← hyphenatedName
  if ← eat .colon then
    let _ ← hyphenatedName
  if ← eat .assign then attributeValue r else return []

def tagAttributes : Parser (List Node) :=
  loop [] fun acc => do
    if ← isOneOf [.slash, .greater] then return (acc, false)
    return (acc ++ (← tagAttribute r), true)

/-- The children of an element and its closing tag, with the end of the opening tag in hand. -/
def children (name : String) : Parser (List Node) := do
  modify Lexer.nextText
  loop [] fun acc => do
    match ← kind with
    | .jsxText =>
      modify Lexer.nextText
      return (acc, true)
    | .braceOpen =>
      let es ← container r
      modify Lexer.nextText
      return (acc ++ es, true)
    | .less =>
      if ← peekIs .slash then
        bump
        bump
        let place ← pos
        let close ← if ← is .greater then pure "" else tagName
        if close != name then failAt place
        unless ← is .greater do unexpected
        return (acc, false)
      let e ← r.element
      modify Lexer.nextText
      return (acc ++ [e], true)
    | _ => unexpected

/-- An element, with the sign that ends it left in hand. -/
def element : Parser Node := do
  let lo ← pos
  expect .less
  let close := fun parts : List Node => do
    return Node.mk .element lo (← get).endPos parts
  if ← is .greater then
    close (← children r "")
  else
    let name ← tagName
    let ts ← attempt do
      unless ← is .less do return none
      return some (← typeArguments r)
    let attributes ← tagAttributes r
    if ← eat .slash then
      unless ← is .greater do unexpected
      close (attributes ++ ts.toList)
    else
      let inner ← children r name
      close (attributes ++ ts.toList ++ inner)

end Grammar

end Phrasebook.Script
