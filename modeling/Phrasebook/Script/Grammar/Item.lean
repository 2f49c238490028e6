import Phrasebook.Script.Grammar.Statement

/-!
# Imports and exports

The items of a module: imports with the names that they bind, exports, and statements.
-/

namespace Phrasebook.Script

open Phrasebook.Script.Parser

namespace Grammar

variable (r : Rules)

/-- The name of something exported, which may be a string. -/
def exportedName : Parser String := do
  if ← is .string then
    let name ← text
    bump
    return name
  word

/-- One name between the braces of an import or export, possibly renamed: whether it is only a
type, and its last name, which `last` reads. The words `type` and `as` may be names themselves. -/
def specifier (last : Parser String) : Parser (Bool × String) := do
  let first ← word
  unless first == "type" && (← kind).isWord do
    if ← eat .kwAs then return (false, ← last)
    return (false, first)
  let second ← word
  unless second == "as" do
    if ← eat .kwAs then return (true, ← last)
    return (true, second)
  unless (← kind).isWord do return (true, "as")
  let third ← word
  if third == "as" && (← kind).isWord then return (true, ← word)
  return (false, third)

def importSpecifier : Parser Node := do
  let lo ← pos
  if ← eat .string then
    expect .kwAs
    let name ← bindingWord
    return ← node (.importBinding false name) lo []
  let (typeOnly, name) ← specifier bindingWord
  node (.importBinding typeOnly name) lo []

def exportSpecifier : Parser Node := do
  let lo ← pos
  if ← eat .string then
    if ← eat .kwAs then
      let _ ← exportedName
  else
    let _ ← specifier exportedName
  node .item lo []

/-- The attributes behind the name of a module. -/
def attributes : Parser (List Node) := do
  let isAssert := (← text) == "assert" && (← is .name) && !(← lineBreak)
  if isAssert || (← is .kwWith) then
    bump
    return [← object r]
  return []

/-- The name of a module, its attributes and the end of the statement. -/
def moduleName : Parser (List Node) := do
  unless ← eat .string do unexpected
  let ns ← attributes r
  expectStatementEnd
  return ns

/-- Behind `import name =`, where `binding` stands for the name. -/
def importEquals (lo : Nat) (typeOnly : Bool) (binding : List Node) : Parser Node := do
  if (← is .kwRequire) && (← peekIs .parenOpen) then
    bump
    bump
    unless ← eat .string do unexpected
    expect .parenClose
  else
    let _ ← entityName
  expectStatementEnd
  node (.importEquals typeOnly) lo binding

/-- The name bound to the default export of a module, if there is one, and whether only types are
imported. -/
def defaultBinding : Parser (Bool × Option Node) := do
  unless (← kind).isReference do return (false, none)
  let lo ← pos
  let name ← word
  if name == "type" then
    if ← isOneOf [.star, .braceOpen] then return (true, none)
    if (← kind).isReference then
      if !(← is .kwFrom) || (← peekIs .kwFrom) || (← peekIs .assign) then
        let lo ← pos
        let name ← word
        return (true, some (← node (.importBinding false name) lo []))
  return (false, some (← node (.importBinding false name) lo []))

/-- The names bound behind the default one. -/
def otherBindings : Parser (List Node) := do
  if ← is .star then
    let lo ← pos
    bump
    expect .kwAs
    let name ← bindingWord
    return [← node (.importBinding false name) lo []]
  expect .braceOpen
  let ns ← separated .braceClose importSpecifier
  expect .braceClose
  return ns

def importItem : Parser Node := do
  let lo ← pos
  bump
  if ← is .string then
    let ns ← moduleName r
    return ← node (.importItem false) lo ns
  let (typeOnly, first) ← defaultBinding
  if first.isSome then
    if ← eat .assign then return ← importEquals lo typeOnly first.toList
  let others ← if first.isNone || (← eat .comma) then otherBindings else pure []
  expect .kwFrom
  let ns ← moduleName r
  node (.importItem typeOnly) lo (first.toList ++ others ++ ns)

/-! ### Exports -/

/-- A function or class at `start` that is exported by default. -/
def defaultDeclaration (lo start : Nat) (f : Node) : Parser Node := do
  let d ← node .declaration start [f]
  node .item lo [d]

def exportDefault (lo : Nat) : Parser Node := do
  let start ← pos
  let next ← peek
  if (← is .kwAbstract) && next.kind == .kwClass && !next.lineBreak then
    bump
    let c ← classFrom r start false
    defaultDeclaration lo start c
  else if ← is .kwInterface then
    bump
    let d ← interfaceFrom r start
    node .item lo [d]
  else if ← is .kwClass then
    let c ← classFrom r start false
    defaultDeclaration lo start c
  else if (← is .kwFunction)
      || ((← is .kwAsync) && next.kind == .kwFunction && !next.lineBreak) then
    let isAsync ← eat .kwAsync
    let f ← namedFunction r start isAsync false
    defaultDeclaration lo start f
  else
    let e ← r.fullAssignment
    expectStatementEnd
    node .item lo [e]

/-- The names that an export lists, and the module that they come from. -/
def exportList (lo : Nat) : Parser Node := do
  if ← eat .star then
    if ← eat .kwAs then
      let _ ← exportedName
    expect .kwFrom
    let ns ← moduleName r
    return ← node .item lo ns
  expect .braceOpen
  let _ ← separated .braceClose exportSpecifier
  expect .braceClose
  if ← eat .kwFrom then
    let ns ← moduleName r
    node .item lo ns
  else
    let _ ← eatStatementEnd
    node .item lo []

/-- An exported declaration that may also stand without `export`, if there is one. -/
def exportedDeclaration? : Parser (Option Node) := do
  let start ← pos
  let next ← peek
  match ← kind with
  | .kwClass => some <$> classDeclaration r start
  | .kwFunction => some <$> functionDeclaration r
  | .kwAsync =>
    if next.kind == .kwFunction && !next.lineBreak then some <$> functionDeclaration r
    else return none
  | .kwConst =>
    if next.kind == .kwEnum then some <$> constEnum r start else some <$> variableList r false
  | .kwVar => some <$> variableList r false
  | .kwLet => if followsLet next.kind then some <$> variableList r false else return none
  | _ => return none

/-- Behind `export import`. -/
def exportedImport (lo : Nat) : Parser Node := do
  let typeOnly := (← is .kwType) && (← peek).kind.isReference
  if typeOnly then bump
  let start ← pos
  let name ← word
  let binding ← node (.importBinding false name) start []
  expect .assign
  importEquals lo typeOnly [binding]

def exportItem : Parser Node := do
  let lo ← pos
  bump
  let start ← pos
  if ← eat .kwDeclare then
    if let some d ← ambientDeclaration r start then return ← node .item lo [d]
  if (← kind).isWord then
    if let some d ← attempt (do declarationNamed r (← pos) (← text) true) then
      return ← node .item lo [d]
  if ← eat .kwImport then return ← exportedImport lo
  if ← eat .assign then
    let e ← r.fullExpression
    expectStatementEnd
    return ← node .item lo [e]
  if ← eat .kwAs then
    expect .kwNamespace
    let _ ← word
    expectStatementEnd
    return ← node .item lo []
  if ← eat .kwType then return ← exportList r lo
  if ← eat .kwDefault then return ← exportDefault r lo
  match ← exportedDeclaration? r with
  | some d => node .item lo [d]
  | none => exportList r lo

def moduleItem : Parser Node := do
  match ← kind with
  | .kwImport =>
    if (← peekIs .parenOpen) || (← peekIs .dot) then importStatement r else importItem r
  | .kwExport => exportItem r
  | _ => r.statement true

end Grammar

end Phrasebook.Script
