import Phrasebook.Script.Parser

/-!
# Patterns, keys and parameters

What names a property, what values are bound to, and the parameters of functions. `ofExpression`
takes an expression that turned out to stand where a pattern has to be for that pattern.
-/

namespace Phrasebook.Script

open Phrasebook.Script.Parser

/-- Adds a node behind the parts of another one. -/
def Node.withPart : Node → Node → Node
  | .mk form lo hi parts, part => .mk form lo hi (parts ++ [part])

namespace Grammar

variable (r : Rules)

/-! ### Keys -/

/-- A key in brackets. Commas in it are mistakes that do no harm. -/
def computedKey : Parser Node := do
  let lo ← pos
  expect .bracketOpen
  let e ← r.fullExpression
  expect .bracketClose
  node .computedKey lo [e]

/-- A string, a number or a big integer. -/
def literalKey : Parser Node := do
  let l ← get
  bump
  match l.kind with
  | .string => node (.string l.token.text) l.pos []
  | .number => node (.number (l.token.text.getD "")) l.pos []
  | _ => node (.bigInt (l.token.text.getD "")) l.pos []

/-- The key of a property. -/
def key : Parser Node := do
  match ← kind with
  | .string | .number | .bigInt => literalKey
  | .bracketOpen => computedKey r
  | _ => wordNode

/-- The key of a member of a class, which may be private. -/
def classKey : Parser Node := do
  if ← is .hash then
    let l ← get
    bump
    if (← pos) != l.endPos then unexpected
    let _ ← word
    node .privateName l.pos []
  else key r

/-! ### Types of names -/

/-- The type behind a colon, if there is one. -/
def annotation? : Parser (Option Node) := do
  if ← eat .colon then return some (← adjust ({ · with noConditionalType := false }) r.type)
  return none

def annotated (n : Node) : Parser Node := do
  match ← annotation? r with
  | some t => return n.withPart t
  | none => return n

/-! ### Patterns -/

/-- A pattern with the default value behind it, if there is one. -/
def withDefault (lo : Nat) (n : Node) : Parser Node := do
  if ← eat .assign then
    let e ← r.fullAssignment
    node .defaultPattern lo [n, e]
  else return n

def patternElement : Parser Node := do
  let lo ← pos
  withDefault r lo (← r.pattern)

def restElement : Parser Node := do
  let lo ← pos
  expect .ellipsis
  let n ← r.pattern
  node .restPattern lo [n]

def arrayPattern : Parser Node := do
  let lo ← pos
  expect .bracketOpen
  let elements ← loop [] fun elements => do
    if ← is .bracketClose then return (elements, false)
    if ← eat .comma then return (elements, true)
    let e ← if ← is .ellipsis then restElement r else patternElement r
    unless ← is .bracketClose do expect .comma
    return (e :: elements, true)
  expect .bracketClose
  node .arrayPattern lo elements.reverse

def patternProperty : Parser Node := do
  if ← is .ellipsis then return ← restElement r
  let lo ← pos
  let k ← key r
  if ← eat .colon then
    let n ← patternElement r
    return ← node .property lo [k, n]
  match k.form with
  | .name _ => withDefault r lo k
  | _ => unexpected

def objectPattern : Parser Node := do
  let lo ← pos
  expect .braceOpen
  let properties ← separated .braceClose (patternProperty r)
  expect .braceClose
  node .objectPattern lo properties

def pattern : Parser Node := do
  match ← kind with
  | .bracketOpen => arrayPattern r
  | .braceOpen => objectPattern r
  | _ => bindingName

/-! ### Parameters -/

/-- A parameter that takes all arguments that are left. -/
def restParameter : Parser Node := do
  let lo ← pos
  expect .ellipsis
  let n ← r.pattern
  let n ←
    if ← eat .assign then
      let e ← r.assignment
      node .defaultPattern lo [n, e]
    else pure n
  let _ ← eat .question
  let n ← annotated r n
  node .restPattern lo [n]

def plainParameter : Parser Node := do
  skipModifier
  let lo ← pos
  let n ← r.pattern
  let _ ← eat .question
  withDefault r lo (← annotated r n)

def parameter : Parser Node := do
  if ← is .ellipsis then restParameter r else plainParameter r

/-- The parameters up to the parenthesis that closes them, which stays. -/
def parameters (one : Parser Node) : Parser Node := do
  let lo ← pos
  let ps ← separated .parenClose one
  node .parameters lo ps

/-! ### Expressions taken for patterns -/

/-- Where an expression is taken for a pattern: as the target of an assignment, inside such a
target, or as something that is bound. -/
inductive PatternPlace where
  | target
  | element
  | binding
deriving DecidableEq

def PatternPlace.inner : PatternPlace → PatternPlace
  | binding => binding
  | _ => element

/-- Expressions that can stand inside the target of an assignment as they are. -/
def isPlainTarget : Form → Bool
  | .name _ | .member | .call | .importCall | .new _ | .string _ | .number _ | .bigInt _
  | .constant | .function _ | .classForm _ | .paren | .template _ | .assertion => true
  | _ => false

mutual

def ofExpression (place : PatternPlace) : Node → Except SyntaxFailure Node
  | .mk (.name text) lo hi parts => .ok (.mk (.name text) lo hi parts)
  | .mk .object lo hi parts => do
    .ok (.mk .objectPattern lo hi (← ofProperties place.inner parts))
  | .mk .array lo hi parts => do
    .ok (.mk .arrayPattern lo hi (← ofElements place.inner parts))
  | .mk (.assignment isPlain) lo hi parts =>
    if place = .target then .ok (.mk (.assignment isPlain) lo hi parts)
    else if isPlain then .ok (.mk .defaultPattern lo hi parts)
    else .ok (.mk .broken lo hi [])
  | .mk form lo hi parts =>
    if place = .target then .ok (.mk form lo hi parts)
    else if place = .element ∧ isPlainTarget form then .ok (.mk form lo hi parts)
    else
      match form with
      | .string _ | .number _ | .bigInt _ | .constant | .broken => .ok (.mk .broken lo hi [])
      | _ => .error ⟨lo⟩

def ofProperties (place : PatternPlace) : List Node → Except SyntaxFailure (List Node)
  | [] => .ok []
  | .mk .property lo hi [k, value] :: rest => do
    let value ← ofExpression place value
    .ok (.mk .property lo hi [k, value] :: (← ofProperties place rest))
  | .mk .shorthand lo hi parts :: rest => do
    .ok (.mk .shorthand lo hi parts :: (← ofProperties place rest))
  | .mk .shorthandDefault lo hi parts :: rest => do
    .ok (.mk .defaultPattern lo hi parts :: (← ofProperties place rest))
  | .mk .spread lo hi [e] :: rest => do
    let e ←
      if place = .binding then
        match e with
        | .mk (.name text) l h ps => .ok (.mk (.name text) l h ps)
        | .mk _ l h _ => .ok (.mk .broken l h [])
      else ofExpression place e
    .ok (.mk .restPattern lo hi [e] :: (← ofProperties place rest))
  | .mk _ lo _ _ :: _ => .error ⟨lo⟩

def ofElements (place : PatternPlace) : List Node → Except SyntaxFailure (List Node)
  | [] => .ok []
  | .mk .hole lo hi parts :: rest => do
    .ok (.mk .hole lo hi parts :: (← ofElements place rest))
  | .mk .spread lo hi [e] :: rest => do
    if rest.isEmpty then .ok [.mk .restPattern lo hi [← ofExpression place e]]
    else ofElements place rest
  | e :: rest => do
    let e ← ofExpression place e
    .ok (e :: (← ofElements place rest))

end

def asPattern (place : PatternPlace) (n : Node) : Parser Node :=
  match ofExpression place n with
  | .ok n => return n
  | .error e => throw e

end Grammar

end Phrasebook.Script
