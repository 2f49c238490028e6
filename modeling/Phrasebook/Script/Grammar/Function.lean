import Phrasebook.Script.Grammar.Type

/-!
# Functions and object literals

A function node has its parameters, its body, its types and then its name as parts. The body is a
block, or absent in a mere signature.
-/

namespace Phrasebook.Script

open Phrasebook.Script.Parser

namespace Grammar

variable (r : Rules)

/-- The mode inside a function. -/
def inFunction (flow : Flow) (mode : Mode) : Mode :=
  { mode with
    flow, allowIn := true, arrowAt := none, inConditional := false, beforeColon := false
    noConditionalType := false }

/-- A block, or nothing where a statement may end. -/
def functionBody (flow : Flow) : Parser Node := do
  if !(← is .braceOpen) && (← eatStatementEnd) then node .absent (← previousEnd) []
  else adjust (inFunction flow) r.block

/-- A function that begins at `lo`, from its parameters on. -/
def functionFrom (lo : Nat) (flow : Flow) : Parser Node := do
  let tps ← typeParameters? r
  expect .parenOpen
  let ps ← adjust (inFunction flow) (parameters (parameter r))
  expect .parenClose
  let t ← resultType? r .colon
  let body ← functionBody r flow
  node (.function flow) lo (ps :: body :: tps ++ t)

/-- The name of a function, which may be missing unless it is needed. -/
def functionName? (needsName : Bool) : Parser (Option String) := do
  if needsName then return some (← bindingWord)
  if (← kind).isWord && !(← kind).isReserved then return some (← word)
  return none

/-- A function with its name behind its other parts. -/
def withName (f : Node) : Option String → Node
  | some name => f.withPart (.mk (.functionName name) f.lo f.lo [])
  | none => f

/-- A function from the word `function` on, with or without its name. -/
def namedFunction (lo : Nat) (isAsync needsName : Bool) : Parser Node := do
  expect .kwFunction
  let isGenerator ← eat .star
  let name ← functionName? needsName
  let f ← functionFrom r lo ⟨isAsync, isGenerator⟩
  return withName f name

def functionDeclaration : Parser Node := do
  let lo ← pos
  let isAsync ← eat .kwAsync
  let f ← namedFunction r lo isAsync true
  node .declaration lo [f]

def functionExpression : Parser Node := do
  let lo ← pos
  let isAsync ← eat .kwAsync
  let f ← namedFunction r lo isAsync false
  if f.parts.any (·.form == .absent) then unexpected
  return f

/-! ### Object literals -/

/-- The tokens that may follow the key of a property. -/
def followsKey (k : Kind) : Bool :=
  k.isWord || [.parenOpen, .bracketOpen, .colon, .comma, .question, .assign, .star, .bigInt,
    .number, .string, .braceClose, .less].contains k

/-- What follows a name that is the key of a property without a value of its own or begins an
accessor or an asynchronous method. -/
def namedProperty (lo : Nat) (k : Node) (name : String) : Parser Node := do
  let _ ← eat .question
  if ← eat .assign then
    let e ← r.fullAssignment
    return ← node .shorthandDefault lo [k, e]
  if ← isOneOf [.comma, .braceClose] then return .mk .shorthand k.lo k.hi [k]
  if name == "get" || name == "set" then
    let k ← key r
    let f ← functionFrom r lo {}
    node .accessor lo [k, f]
  else if name == "async" then
    let isGenerator ← eat .star
    let k ← key r
    let f ← functionFrom r lo ⟨true, isGenerator⟩
    node .method f.lo [k, f]
  else unexpected

/-- A property of an object literal. -/
def property : Parser Node := do
  let lo ← pos
  if ← eat .ellipsis then
    let e ← r.fullAssignment
    return ← node .spread lo [e]
  if ← eat .star then
    let k ← key r
    let f ← functionFrom r lo ⟨false, true⟩
    return ← node .method lo [k, f]
  skipModifier
  let k ← key r
  if !followsKey (← kind) then
    let p ← pos
    return .mk .property k.lo (← previousEnd) [k, .mk .broken lo p []]
  if ← eat .colon then
    let e ← r.fullAssignment
    return ← node .property k.lo [k, e]
  if ← isOneOf [.parenOpen, .less] then
    let f ← functionFrom r lo {}
    return ← node .method lo [k, f]
  match k.form with
  | .name name => namedProperty r lo k name
  | _ => unexpected

def object : Parser Node := do
  let lo ← pos
  expect .braceOpen
  let inside := fun mode : Mode => { mode with beforeColon := false }
  let properties ← adjust inside (separated .braceClose (property r))
  expect .braceClose
  node .object lo properties

end Grammar

end Phrasebook.Script
