import Phrasebook.Script.Grammar.Pattern

/-!
# Types

The types of a script. Nothing is asked about them but where they begin and end and which
expressions stand in them.
-/

namespace Phrasebook.Script

open Phrasebook.Script.Parser

namespace Grammar

variable (r : Rules)

/-! ### Templates, of types and of expressions -/

/-- A wrong escape is allowed only behind a tag. -/
def checkPiece (tagged : Bool) : Parser Unit := do
  match (← get).token.fault with
  | some place => if !tagged || (← get).kind == .invalid then failAt place
  | none => return

/-- A template whose substitutions are read by `inner`. -/
def templateOf (tagged : Bool) (inner : Parser Node) : Parser Node := do
  let l ← get
  checkPiece tagged
  if l.kind == .templateWhole then
    bump
    return ← node (.template l.token.text) l.pos []
  bump
  let inners ← loop [] fun inners => do
    let e ← inner
    unless ← is .braceClose do unexpected
    modify Lexer.rereadTemplate
    checkPiece tagged
    let more ← is .templateMiddle
    bump
    return (e :: inners, more)
  node (.template none) l.pos inners.reverse

/-! ### Arguments and parameters of types -/

def atLess : Parser Bool := isOneOf [.less, .shiftLeft]

/-- A `<`, also as the first half of another sign. -/
def expectLess : Parser Unit := do
  if ← is .shiftLeft then modify (·.rereadFirst .less)
  expect .less

/-- A type in which nothing of what surrounds it matters. -/
def freshType : Parser Node := adjust ({ · with noConditionalType := false }) r.type

/-- A type without conditions at its top. -/
def plainType : Parser Node := adjust ({ · with noConditionalType := true }) r.type

def typeArguments : Parser Node := do
  let lo ← pos
  expectLess
  let ts ← separated .greater (freshType r)
  expect .greater
  node .type lo ts

def typeArguments? : Parser (List Node) := do
  if ← atLess then return [← typeArguments r] else return []

/-- Type arguments on the same line. -/
def closeTypeArguments? : Parser (List Node) := do
  if ← lineBreak then return [] else typeArguments? r

def typeParameter : Parser Node := do
  let lo ← pos
  loop () fun _ => do
    return ((), (← eatModifier [.kwConst, .kwIn, .kwOut]).isSome)
  let _ ← word
  let bound ← if ← eat .kwExtends then pure [← freshType r] else pure []
  let preset ← if ← eat .assign then pure [← freshType r] else pure []
  node .type lo (bound ++ preset)

def typeParameters : Parser Node := do
  let lo ← pos
  expect .less
  let ps ← separated .greater (typeParameter r)
  expect .greater
  node .type lo ps

def typeParameters? : Parser (List Node) := do
  if ← is .less then return [← typeParameters r] else return []

/-! ### Functions -/

/-- The type of a result behind a sign, which may also be a statement about a parameter. -/
def resultType (sign : Kind) : Parser Node := do
  expect sign
  let lo ← pos
  let asserts := (← is .kwAsserts) && (← peek).kind.isReference
  if asserts then bump
  let next ← peek
  let claims := (← kind).isReference && next.kind == .kwIs && !next.lineBreak
  if claims then
    bump
    bump
    let t ← freshType r
    node .type lo [t]
  else if asserts then
    let _ ← word
    node .type lo []
  else freshType r

def resultType? (sign : Kind) : Parser (List Node) := do
  if ← is sign then return [← resultType r sign] else return []

/-- Parameters without default values, in parentheses. -/
def signatureParameters : Parser Node := do
  expect .parenOpen
  let ps ← parameters (parameter r)
  if ps.parts.any (·.form == .defaultPattern) then unexpected
  expect .parenClose
  return ps

def functionType : Parser Node := do
  let lo ← pos
  let _ ← eat .kwAbstract
  let _ ← eat .kwNew
  let tps ← typeParameters? r
  let ps ← signatureParameters r
  let t ← resultType r .arrow
  node .type lo (tps ++ [ps, t])

/-- Whether a parenthesis begins the parameters of a function. -/
def atFunctionType : Parser Bool := do
  if ← is .less then return true
  unless ← is .parenOpen do return false
  lookAhead do
    bump
    if ← isOneOf [.parenClose, .ellipsis] then return true
    skipModifier
    if (← kind).isWord then bump
    else if ← isOneOf [.bracketOpen, .braceOpen] then
      let _ ← r.pattern
    else return false
    if ← isOneOf [.colon, .comma, .question, .assign] then return true
    if ← eat .parenClose then is .arrow else return false

/-! ### Members of object types -/

def expectMemberEnd : Parser Unit := do
  unless ← eat .comma do expectStatementEnd

/-- `[key: type]: type` -/
def indexSignature? : Parser (Option Node) := do
  unless ← is .bracketOpen do return none
  let fits ← lookAhead do
    bump
    unless (← kind).isReference do return false
    bump
    isOneOf [.colon, .comma]
  unless fits do return none
  let lo ← pos
  bump
  let _ ← word
  bump
  let t ← freshType r
  expect .bracketClose
  let a ← annotation? r
  expectMemberEnd
  return some (← node .type lo (t :: a.toList))

/-- Type parameters, parameters and result of a signature. -/
def signature : Parser (List Node) := do
  let tps ← typeParameters? r
  let ps ← signatureParameters r
  let t ← resultType? r .colon
  expectMemberEnd
  return tps ++ ps :: t

def accessorSignature : Parser (Option Node) := do
  let lo ← pos
  let isGet ← is .kwGet
  unless isGet do unless ← is .kwSet do return none
  bump
  let k ← key r
  let ps ← signatureParameters r
  if isGet && !ps.parts.isEmpty then unexpected
  let a ← if isGet then annotation? r else pure none
  expectMemberEnd
  return some (← node .type lo (k :: ps :: a.toList))

def typeMember : Parser Node := do
  let lo ← pos
  if ← isOneOf [.parenOpen, .less] then return ← node .type lo (← signature r)
  if ← is .kwNew then
    let next ← peek
    if next.kind == .parenOpen || next.kind == .less then
      bump
      return ← node .type lo (← signature r)
  let isReadonly := (← eatModifier [.kwReadonly]).isSome
  if let some n ← indexSignature? r then return n
  unless isReadonly do
    if let some n ← attempt (accessorSignature r) then return n
  let k ← key r
  let _ ← eat .question
  if ← isOneOf [.parenOpen, .less] then node .type lo (k :: (← signature r))
  else
    let a ← annotation? r
    expectMemberEnd
    node .type lo (k :: a.toList)

/-- The members of an object type in braces. -/
def typeMembers : Parser Node := do
  let lo ← pos
  expect .braceOpen
  let ms ← many (is .braceClose) (typeMember r)
  expect .braceClose
  node .type lo ms

def atMappedType : Parser Bool := lookAhead do
  bump
  if ← isOneOf [.plus, .minus] then
    bump
    return ← is .kwReadonly
  let _ ← eat .kwReadonly
  unless ← eat .bracketOpen do return false
  unless (← kind).isReference do return false
  bump
  is .kwIn

/-- A modifier that a plus or minus may stand in front of. -/
def signedModifier (k : Kind) : Parser Unit := do
  if ← isOneOf [.plus, .minus] then
    bump
    expect k
  else
    let _ ← eat k

def mappedType : Parser Node := do
  let lo ← pos
  bump
  signedModifier .kwReadonly
  expect .bracketOpen
  let _ ← word
  expect .kwIn
  let t ← freshType r
  let name ← if ← eat .kwAs then pure [← freshType r] else pure []
  expect .bracketClose
  signedModifier .question
  let a ← annotation? r
  expectStatementEnd
  expect .braceClose
  node .type lo (t :: name ++ a.toList)

/-! ### Types -/

/-- Names with points between them. -/
def entityName : Parser (List String) := do
  let first ← word
  loop [first] fun names => do
    if ← eat .dot then return (names ++ [← word], true)
    return (names, false)

def typeReference : Parser Node := do
  let lo ← pos
  let _ ← entityName
  node .type lo (← closeTypeArguments? r)

def importType : Parser Node := do
  let lo ← pos
  bump
  expect .parenOpen
  unless ← eat .string do unexpected
  let options ←
    if ← eat .comma then
      if ← is .braceOpen then pure [← r.fullAssignment] else pure []
    else pure []
  let _ ← eat .comma
  expect .parenClose
  if ← eat .dot then
    let _ ← entityName
  node .type lo (options ++ (← typeArguments? r))

def typeQuery : Parser Node := do
  let lo ← pos
  bump
  if ← is .kwImport then
    let t ← importType r
    node .type lo [t]
  else
    let _ ← entityName
    node .type lo (← closeTypeArguments? r)

def tupleElement : Parser Node := do
  let lo ← pos
  let _ ← attempt do
    let _ ← eat .ellipsis
    let _ ← word
    let _ ← eat .question
    expect .colon
    return some ()
  let _ ← eat .ellipsis
  let t ← freshType r
  let _ ← eat .question
  node .type lo [t]

def simpleTypeWords : List Kind := [
  .kwVoid, .kwNull, .kwAny, .kwBoolean, .kwBigint, .kwNever, .kwNumber, .kwObject, .kwString,
  .kwSymbol, .kwUndefined, .kwUnknown, .kwIntrinsic]

/-- A type of one token. -/
def oneToken : Parser Node := do
  let lo ← pos
  bump
  node .type lo []

def primaryType : Parser Node := do
  let lo ← pos
  match ← kind with
  | .string | .number | .bigInt | .kwTrue | .kwFalse => oneToken
  | .templateWhole | .templateHead => templateOf false (freshType r)
  | .minus =>
    bump
    unless ← isOneOf [.number, .bigInt] do unexpected
    bump
    node .type lo []
  | .kwImport => importType r
  | .kwTypeof => typeQuery r
  | .kwThis =>
    bump
    if (← is .kwIs) && !(← lineBreak) then
      bump
      let t ← freshType r
      node .type lo [t]
    else node .type lo []
  | .braceOpen => if ← atMappedType then mappedType r else typeMembers r
  | .bracketOpen =>
    bump
    let ts ← separated .bracketClose (tupleElement r)
    expect .bracketClose
    node .type lo ts
  | .parenOpen =>
    bump
    let t ← freshType r
    expect .parenClose
    node .type lo [t]
  | k =>
    if k == .kwAsserts && (← peekIs .kwThis) then
      bump
      bump
      if ← eat .kwIs then
        let t ← freshType r
        node .type lo [t]
      else node .type lo []
    else if simpleTypeWords.contains k && !(← peekIs .dot) then oneToken
    else if k == .name || k.isContextual
        || [.kwVoid, .kwYield, .kwNull, .kwAwait, .kwBreak].contains k then
      typeReference r
    else unexpected

/-- A type with the brackets behind it. -/
def arrayType : Parser Node := do
  let lo ← pos
  let t ← primaryType r
  loop t fun t => do
    if (← lineBreak) || !(← is .bracketOpen) then return (t, false)
    bump
    if ← eat .bracketClose then return (← node .type lo [t], true)
    let index ← freshType r
    expect .bracketClose
    return (← node .type lo [t, index], true)

/-- `infer name`, possibly with a bound. -/
def inferType : Parser Node := do
  let lo ← pos
  bump
  let _ ← word
  let open_ := (← read).noConditionalType
  let bound ← attempt do
    unless ← eat .kwExtends do return none
    let t ← plainType r
    if open_ || !(← is .question) then return some t else return none
  node .type lo bound.toList

def operatorType : Parser Node := do
  let lo ← pos
  let operators ← loop 0 fun n => do
    if ← isOneOf [.kwKeyof, .kwUnique, .kwReadonly] then
      bump
      return (n + 1, true)
    return (n, false)
  let t ← if ← is .kwInfer then inferType r else arrayType r
  if operators = 0 then return t else node .type lo [t]

/-- Types with a sign between them, which may also stand in front of the first. -/
def joined (sign : Kind) (part : Parser Node) : Parser Node := do
  let lo ← pos
  let _ ← eat sign
  let t ← part
  unless ← is sign do return t
  let ts ← loop [t] fun ts => do
    if ← eat sign then return ((← part) :: ts, true)
    return (ts, false)
  node .type lo ts.reverse

def unionType : Parser Node := joined .bitOr (joined .bitAnd (operatorType r))

def unconditionalType : Parser Node := do
  if ← atFunctionType r then functionType r
  else if ← is .kwNew then functionType r
  else if (← is .kwAbstract) && (← peekIs .kwNew) then functionType r
  else unionType r

def type : Parser Node := do
  let lo ← pos
  let t ← unconditionalType r
  if (← read).noConditionalType || (← lineBreak) || !(← is .kwExtends) then return t
  bump
  let bound ← plainType r
  expect .question
  let yes ← freshType r
  expect .colon
  let no ← freshType r
  node .type lo [t, bound, yes, no]

end Grammar

end Phrasebook.Script
