import Phrasebook.Script.Grammar.Expression

/-!
# Statements and declarations

Some mistakes do no harm: a block that the end of the text closes, variables that end without a
semicolon, a `catch` without its `try`.
-/

namespace Phrasebook.Script

open Phrasebook.Script.Parser

namespace Grammar

variable (r : Rules)

/-! ### Blocks -/

/-- What stands in braces. The end of the text closes them too. -/
def braced (one : Parser Node) : Parser Node := do
  let lo ← pos
  expect .braceOpen
  let ns ← many (isOneOf [.braceClose, .eof]) one
  let _ ← eat .braceClose
  node .block lo ns

def block : Parser Node := braced (r.statement true)

/-! ### Variables -/

/-- A name or pattern and its value. `isFixed` says that it cannot be assigned later. -/
def declarator (isLexical isFixed inHead : Bool) : Parser Node := do
  let lo ← pos
  if isLexical && (← is .kwLet) then unexpected
  let n ← r.pattern
  let isName := n.form matches .name _
  if isName then
    let _ ← eat .not
  let n ← annotated r n
  if inHead && (← isOneOf [.kwIn, .kwOf]) then return ← node .declarator lo [n]
  if ← eat .assign then
    let e ← r.assignment
    return ← node .declarator lo [n, e]
  unless isName || isFixed || (← read).ambient do failAt lo
  node .declarator lo [n]

/-- Skips to the end of a statement behind something that does not fit. -/
def skipStatement : Parser Unit := do
  let _ ← recover r.expression
  loop () fun _ => do
    if ← eatStatementEnd then return ((), false)
    bump
    return ((), true)

/-- `for (let of …)` without a name. -/
def isEmptyHead : Parser Bool := lookAhead do
  unless ← isOneOf [.kwIn, .kwOf] do return false
  bump
  let _ ← r.assignment
  expect .parenClose
  return true

/-- Variables from the word that declares them on, in the head of a loop or as a statement. -/
def variableList (inHead : Bool) : Parser Node := do
  let lo ← pos
  let word ← kind
  bump
  let isVar := word == .kwVar
  if inHead && (← isEmptyHead r) then return ← node (.variableList isVar) lo []
  let within := fun mode : Mode => if isVar && inHead then mode else { mode with allowIn := true }
  let ds ← loop [] fun ds => do
    if ← is .semicolon then return (ds, false)
    let d ← adjust within (declarator r (!isVar && word != .kwUsing) (word == .kwConst) inHead)
    return (d :: ds, ← eat .comma)
  unless inHead do
    unless ← eatStatementEnd do skipStatement r
  node (.variableList isVar) lo ds.reverse

/-- Whether a word behind `let` makes it a declaration. -/
def followsLet (k : Kind) : Bool :=
  k == .braceOpen || k == .bracketOpen || (k.isWord && !k.isReserved)

/-- Whether variables are declared here. -/
def atVariables : Parser Bool := do
  match ← kind with
  | .kwConst | .kwVar => return true
  | .kwLet => return followsLet (← peek).kind
  | .kwUsing =>
    let next ← peek
    return next.kind.isReference && !next.lineBreak
  | _ => return false

/-! ### Declarations of types and names -/

def enumMember : Parser Node := do
  let k ← key r
  let lo := k.lo
  if ← eat .assign then
    let e ← r.assignment
    node .item lo [k, e]
  else node .item lo [k]

/-- An enumeration behind the word `enum`. -/
def enumFrom (lo : Nat) : Parser Node := do
  let name ← word
  expect .braceOpen
  let ms ← separated .braceClose (enumMember r)
  expect .braceClose
  node (.enumeration name) lo ms

/-- An interface behind the word `interface`. -/
def interfaceFrom (lo : Nat) : Parser Node := do
  let _ ← word
  let tps ← typeParameters? r
  let bases ← heritageClauses r
  let ms ← typeMembers r
  node .statement lo (tps ++ bases ++ [ms])

/-- Another name for a type, behind the word `type`. -/
def aliasFrom (lo : Nat) : Parser Node := do
  let _ ← word
  let tps ← typeParameters? r
  expect .assign
  let t ← freshType r
  expectStatementEnd
  node .statement lo (tps ++ [t])

def namespaceBlock : Parser Node := braced r.item

/-- A namespace behind the word that declares it. -/
def namespaceFrom (lo : Nat) : Parser Node := do
  let names ← entityName
  let b ← namespaceBlock r
  node (.namespaceForm names) lo [b]

/-- A module that is declared by its name or as `global`. -/
def ambientModule (lo : Nat) : Parser Node := do
  bump
  if ← is .braceOpen then
    let b ← namespaceBlock r
    node (.namespaceForm []) lo [b]
  else
    expectStatementEnd
    node (.namespaceForm []) lo []

def classDeclaration (lo : Nat) : Parser Node := do
  let c ← classFrom r lo true
  node .declaration lo [c]

/-- The declaration that a word begins. With `inHand` the word is the current token and has to
begin one, else it has been read and what follows it decides. -/
def declarationNamed (lo : Nat) (word : String) (inHand : Bool) : Parser (Option Node) := do
  let broken := (if inHand then pure false else lineBreak : Parser Bool)
  let skip := (if inHand then bump else pure () : Parser Unit)
  let named := (return inHand || (← kind).isReference : Parser Bool)
  match word with
  | "abstract" =>
    unless inHand || ((← is .kwClass) && !(← lineBreak)) do return none
    skip
    return some (← classDeclaration r lo)
  | "enum" =>
    unless ← named do return none
    skip
    return some (← enumFrom r lo)
  | "interface" =>
    unless ← named do return none
    skip
    return some (← interfaceFrom r lo)
  | "module" =>
    if ← broken then return none
    skip
    if ← is .string then return some (← ambientModule r lo)
    unless ← named do return none
    return some (← namespaceFrom r lo)
  | "namespace" =>
    unless ← named do return none
    skip
    return some (← namespaceFrom r lo)
  | "type" =>
    if ← broken then return none
    unless ← named do return none
    skip
    return some (← aliasFrom r lo)
  | _ => return none

def constEnum (lo : Nat) : Parser Node := do
  bump
  bump
  enumFrom r lo

/-- The declaration behind the word `declare`, which stands at `lo`. -/
def ambientDeclaration (lo : Nat) : Parser (Option Node) := adjust ({ · with ambient := true }) do
  let d ←
    match ← kind with
    | .kwFunction => some <$> functionDeclaration r
    | .kwClass => some <$> classDeclaration r lo
    | .kwConst =>
      if ← peekIs .kwEnum then some <$> constEnum r lo else some <$> variableList r false
    | .kwVar | .kwLet => some <$> variableList r false
    | .kwGlobal => some <$> ambientModule r lo
    | k => if k.isWord then declarationNamed r lo (← text) true else pure none
  return d.map fun d => .mk .ambient lo d.hi [d]

/-- The declaration that a name begins which stands alone as an expression. -/
def declarationBehind (lo : Nat) (name : String) : Parser (Option Node) := do
  match name with
  | "declare" => ambientDeclaration r lo
  | "global" =>
    unless ← is .braceOpen do return none
    let b ← namespaceBlock r
    return some (← node (.namespaceForm []) lo [b])
  | _ => declarationNamed r lo name false

/-! ### Statements -/

def expressionStatement : Parser Node := do
  let lo ← pos
  let e ← r.fullExpression
  match e.form with
  | .name name =>
    if ← eat .colon then
      let s ← if ← is .kwFunction then functionDeclaration r else r.statement false
      return ← node .statement lo [s]
    if let some d ← declarationBehind r lo name then return d
  | _ => pure ()
  if ← eatStatementEnd then return ← node .expressionStatement lo [e]
  unless (← kind).isBinarySign do unexpected
  let e ← r.operators e 0
  node .expressionStatement lo [e]

/-- An expression that begins with `import`. -/
def importStatement : Parser Node := do
  let lo ← pos
  let e ← r.fullExpression
  let _ ← eat .semicolon
  node .expressionStatement lo [e]

/-- An expression in parentheses. -/
def condition : Parser Node := do
  expect .parenOpen
  let e ← r.fullExpression
  expect .parenClose
  return e

def jump : Parser Node := do
  let lo ← pos
  bump
  unless ← eatStatementEnd do
    let _ ← word
    expectStatementEnd
  node .statement lo []

def returnStatement : Parser Node := do
  let lo ← pos
  bump
  let e ← if ← atStatementEnd then pure [] else pure [← r.fullExpression]
  expectStatementEnd
  node .returnStatement lo e

def throwStatement : Parser Node := do
  let lo ← pos
  bump
  if ← lineBreak then unexpected
  let e ← r.fullExpression
  expectStatementEnd
  node .statement lo [e]

def ifStatement : Parser Node := do
  let lo ← pos
  bump
  let test ← condition r
  let yes ← r.statement false
  let no ← if ← eat .kwElse then pure [← r.statement false] else pure []
  node .statement lo (test :: yes :: no)

def whileStatement : Parser Node := do
  let lo ← pos
  bump
  let test ← condition r
  let body ← r.statement false
  node .statement lo [test, body]

def doStatement : Parser Node := do
  let lo ← pos
  bump
  let body ← r.statement false
  expect .kwWhile
  let test ← condition r
  let _ ← eat .semicolon
  node .statement lo [test, body]

/-- Behind the variables or targets of a loop: what it runs over. -/
def overEach : Parser (List Node) := do
  if ← eat .kwOf then return [← r.fullAssignment]
  expect .kwIn
  return [← r.fullExpression]

/-- Test and update of a loop that counts. -/
def testAndUpdate : Parser (List Node) := do
  let test ← if ← is .semicolon then pure [] else pure [← r.fullExpression]
  expect .semicolon
  let update ← if ← is .parenClose then pure [] else pure [← r.fullExpression]
  return test ++ update

def forHead : Parser (List Node) := do
  if ← eat .semicolon then return ← testAndUpdate r
  let isUsing := (← is .kwUsing) && (← peekIs .kwOf)
  if !isUsing && (← atVariables) then
    let v ← adjust ({ · with allowIn := false }) (variableList r true)
    if ← isOneOf [.kwOf, .kwIn] then return v :: (← overEach r)
    expect .semicolon
    return v :: (← testAndUpdate r)
  let e ← adjust ({ · with allowIn := false }) r.expression
  if ← isOneOf [.kwOf, .kwIn] then
    let target ← asPattern .target e
    return target :: (← overEach r)
  expect .semicolon
  return e :: (← testAndUpdate r)

def forStatement : Parser Node := do
  let lo ← pos
  bump
  let _ ← eat .kwAwait
  expect .parenOpen
  let head ← forHead r
  expect .parenClose
  let body ← r.statement false
  node .forStatement lo (head ++ [body])

/-- The statements behind `case` or `default`. -/
def caseBody : Parser (List Node) :=
  many (isOneOf [.kwCase, .kwDefault, .braceClose, .eof]) (r.statement true)

def switchStatement : Parser Node := do
  let lo ← pos
  bump
  let value ← condition r
  expect .braceOpen
  let (_, cases) ← loop (false, [value]) fun (hasDefault, cases) => do
    if ← eat .kwCase then
      let test ← r.fullExpression
      expect .colon
      return ((hasDefault, cases ++ test :: (← caseBody r)), true)
    if ← is .kwDefault then
      bump
      if hasDefault then unexpected
      expect .colon
      return ((true, cases ++ (← caseBody r)), true)
    return ((hasDefault, cases), false)
  expect .braceClose
  node .switchStatement lo cases

def catchClause? : Parser (List Node) := do
  unless ← eat .kwCatch do return []
  let param ←
    if ← eat .parenOpen then
      let n ← annotated r (← r.pattern)
      expect .parenClose
      pure [n]
    else pure []
  let b ← r.block
  return param ++ [b]

def finallyClause? : Parser (List Node) := do
  if ← eat .kwFinally then return [← r.block] else return []

def tryStatement : Parser Node := do
  let lo ← pos
  bump
  let b ← r.block
  let handler ← catchClause? r
  let last ← finallyClause? r
  node .tryStatement lo (b :: handler ++ last)

/-- `catch` or `finally` without `try`. -/
def strayClause : Parser Node := do
  let l ← get
  let _ ← recover (catchClause? r)
  let _ ← recover (finallyClause? r)
  return .mk .expressionStatement l.pos l.endPos []

/-- A statement, which may be a declaration if `isDeclaration`. -/
def statement (isDeclaration : Bool) : Parser Node := do
  let l ← get
  match l.kind with
  | .braceOpen => r.block
  | .semicolon => tokenNode .statement
  | .kwBreak | .kwContinue => jump
  | .kwDebugger =>
    bump
    expectStatementEnd
    node .statement l.pos []
  | .kwDo => doStatement r
  | .kwFor => forStatement r
  | .kwFunction => functionDeclaration r
  | .kwClass => classDeclaration r l.pos
  | .kwIf => ifStatement r
  | .kwReturn => returnStatement r
  | .kwSwitch => switchStatement r
  | .kwThrow => throwStatement r
  | .kwTry => tryStatement r
  | .kwCatch | .kwFinally => strayClause r
  | .kwWith | .kwWhile => whileStatement r
  | .kwImport =>
    if (← peekIs .parenOpen) || (← peekIs .dot) then importStatement r else unexpected
  | .kwExport => unexpected
  | .kwVar => variableList r false
  | .kwConst =>
    if ← peekIs .kwEnum then constEnum r l.pos
    else if isDeclaration then variableList r false
    else unexpected
  | .kwLet | .kwUsing =>
    if isDeclaration && (← atVariables) then variableList r false else expressionStatement r
  | .kwAwait =>
    let next ← peek
    if next.kind == .kwUsing && !next.lineBreak && next.next.kind.isReference
        && !next.next.lineBreak then
      bump
      let v ← variableList r false
      return .mk v.form l.pos v.hi v.parts
    expressionStatement r
  | .kwAsync =>
    let next ← peek
    if next.kind == .kwFunction && !next.lineBreak then functionDeclaration r
    else expressionStatement r
  | _ => expressionStatement r

end Grammar

end Phrasebook.Script
