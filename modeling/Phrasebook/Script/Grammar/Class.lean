import Phrasebook.Script.Grammar.Function

/-!
# Classes

A class has its members as parts and behind them what it extends and implements.
-/

namespace Phrasebook.Script

open Phrasebook.Script.Parser

namespace Grammar

variable (r : Rules)

/-! ### Members -/

/-- A method begins here, behind its key. -/
def atMethod : Parser Bool := isOneOf [.parenOpen, .less]

/-- A property goes on or ends here, behind its key. -/
def atProperty (lineEndCounts : Bool) : Parser Bool := do
  if ← isOneOf [.not, .colon, .assign, .braceClose, .semicolon] then return true
  if lineEndCounts then atStatementEnd else return false

/-- What the words in front of a member say. -/
structure Modifiers where
  isStatic : Bool := false
  isAbstract : Bool := false
  isReadonly : Bool := false
  isOverride : Bool := false
  isOpen : Bool := true
  isAmbient : Bool := false

/-- A property behind its key. An abstract one has no value. -/
def classProperty (lo : Nat) (m : Modifiers) (k : Node) (optional : Bool) : Parser Node := do
  unless optional do
    let _ ← eat .not
  let a ← annotation? r
  let value ←
    if ← is .assign then
      if m.isAbstract then unexpected
      bump
      pure [← adjust (fun mode => inFunction {} mode) r.assignment]
    else pure []
  let _ ← eatStatementEnd
  node .item lo (k :: value ++ a.toList)

def classMethod (lo : Nat) (k : Node) (flow : Flow) : Parser Node := do
  let f ← functionFrom r lo flow
  node .item lo [k, f]

/-- A method or property whose key is the word that was just read. -/
def memberNamedBy (lo : Nat) (m : Modifiers) (word : String) (lineEndCounts : Bool) :
    Parser (Option Node) := do
  let k ← node (.name word) lo []
  if ← atMethod then return some (← classMethod r lo k {})
  if (← atProperty lineEndCounts) || (← is .question) then
    let optional ← eat .question
    if optional && (← atMethod) then return some (← classMethod r lo k {})
    return some (← classProperty r lo m k optional)
  return none

def constructorParameter : Parser Node := do
  if ← is .ellipsis then return ← restParameter r
  let words := [.kwPublic, .kwPrivate, .kwProtected, .kwOverride, .kwReadonly]
  let isProperty ← loop false fun found => do
    if (← eatModifier words).isSome then return (true, true) else return (found, false)
  let lo ← pos
  let n ← plainParameter r
  if isProperty then
    match n.form, n.parts.head?.map Node.form with
    | .name _, _ => return n
    | .defaultPattern, some (.name _) => return n
    | _, _ => failAt lo
  else return n

def constructorMember (lo : Nat) (k : Node) : Parser Node := do
  let tps ← typeParameters? r
  expect .parenOpen
  let ps ← adjust (inFunction {}) (parameters (constructorParameter r))
  expect .parenClose
  let a ← annotation? r
  let body ← functionBody r {}
  node .item lo (k :: ps :: body :: tps ++ a.toList)

def isConstructorKey (k : Node) : Bool :=
  k.form == .name "constructor" || k.form == .string (some "constructor")

/-- A member behind all its modifiers. -/
def memberBody (lo : Nat) (m : Modifiers) : Parser Node := do
  if ← eat .star then
    let k ← classKey r
    return ← classMethod r lo k ⟨false, true⟩
  let k ←
    if m.isReadonly && (← isOneOf [.not, .colon]) then
      node (.name "readonly") (← previousEnd) []
    else classKey r
  let optional ← eat .question
  if ← atMethod then
    if m.isReadonly then unexpected
    if isConstructorKey k && !m.isStatic then return ← constructorMember r lo k
    return ← classMethod r lo k {}
  let isAccessorWord := k.form == .name "get" || k.form == .name "set"
  let beforeGenerator := (← lineBreak) && (← is .star)
  let isAccessor := isAccessorWord && !(← atProperty false) && !beforeGenerator
  if !isAccessor && (← atProperty true) then return ← classProperty r lo m k optional
  if k.form == .name "async" && !(← lineBreak) then
    let isGenerator ← eat .star
    let k ← classKey r
    let _ ← eat .question
    return ← classMethod r lo k ⟨true, isGenerator⟩
  if isAccessor then
    let k ← classKey r
    return ← classMethod r lo k {}
  unexpected

/-- A member behind `declare`, its access and the first `static`. -/
def memberFrom (lo : Nat) (m : Modifiers) : Parser Node := do
  let m ← loop m fun m => do
    if (← is .kwStatic) && (← peekIs .braceOpen) then return (m, false)
    match ← eatModifier [.kwAbstract, .kwReadonly, .kwOverride, .kwStatic] with
    | some .kwAbstract => return ({ m with isAbstract := true }, true)
    | some .kwReadonly => return ({ m with isReadonly := true }, true)
    | some .kwOverride => return ({ m with isOverride := true }, true)
    | some _ => return ({ m with isStatic := true }, true)
    | none => return (m, false)
  if ← eat .kwAccessor then
    if let some n ← memberNamedBy r lo m "accessor" true then return n
  if (← is .kwStatic) && (← peekIs .braceOpen) then bump
  else unless m.isStatic && (← is .braceOpen) do
    if !m.isAbstract && !m.isOverride && m.isOpen then
      if let some n ← indexSignature? r then return n
    return ← memberBody r lo m
  let body ← adjust (inFunction {}) r.block
  node .item lo [body]

def classMember : Parser Node := do
  let lo ← pos
  let declared ← eat .kwDeclare
  let access ← eatModifier [.kwPublic, .kwProtected, .kwPrivate]
  let m : Modifiers := { isOpen := access.isNone }
  let declared := (← if declared then pure true else eat .kwDeclare)
  if declared then
    if let some n ← memberNamedBy r lo m "declare" false then return n
  if ← eat .kwStatic then
    let m := { m with isStatic := true }
    if let some n ← memberNamedBy r lo m "static" false then return n
    memberFrom r lo m
  else memberFrom r lo m

def classMembers : Parser (List Node) :=
  many (isOneOf [.braceClose, .eof]) do
    let lo ← pos
    if ← eat .semicolon then node .item lo [] else classMember r

/-! ### Heritage -/

/-- What a class extends, with its type arguments. -/
def superClass : Parser (List Node) := do
  let e ← r.leftHandSide
  match e with
  | .mk .instantiation _ _ parts => return parts
  | e => return e :: (← typeArguments? r)

def heritage : Parser (List Node) := do
  loop [] fun acc => do
    let e ← r.leftHandSide
    let ts ← typeArguments? r
    return (acc ++ e :: ts, ← eat .comma)

/-- Clauses that stand twice or in the wrong place do no harm. -/
def heritageClauses : Parser (List Node) := do
  loop [] fun acc => do
    if ← eat .kwExtends then
      let ns ← superClass r
      let more ← if ← eat .comma then heritage r else pure []
      return (acc ++ ns ++ more, true)
    if ← eat .kwImplements then return (acc ++ (← heritage r), true)
    return (acc, false)

/-- The name of a class, which may be missing unless it is needed. -/
def className? (needsName : Bool) : Parser (Option String) := do
  if needsName then return some (← bindingWord)
  if (← kind).isReference && !(← is .kwImplements) then return some (← word)
  return none

/-- A class from the word `class` on. -/
def classFrom (lo : Nat) (needsName : Bool) : Parser Node := do
  expect .kwClass
  let name ← className? needsName
  let tps ← typeParameters? r
  let clauses ← heritageClauses r
  expect .braceOpen
  let ms ← adjust ({ · with beforeColon := false }) (classMembers r)
  expect .braceClose
  node (.classForm name) lo (ms ++ clauses ++ tps)

end Grammar

end Phrasebook.Script
