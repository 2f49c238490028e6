import Phrasebook.Script.Grammar.Class
import Phrasebook.Script.Grammar.Element

/-!
# Expressions

The rules are ordered from what binds most tightly to what binds least: primary expressions, arrow
functions and parentheses, members and calls, unary and binary operators, conditionals,
assignments. An arrow function can only stand where an assignment can begin; it is then passed on
unchanged by all the rules in between.
-/

namespace Phrasebook.Script

open Phrasebook.Script.Parser

namespace Grammar

variable (r : Rules)

/-- An arrow function that begins where one may. -/
def isWholeArrow (n : Node) : Parser Bool := do
  match n.form with
  | .arrow _ => return (← read).arrowAt == some n.lo
  | _ => return false

/-! ### Primary expressions -/

/-- The token in hand as a node of its own. -/
def tokenNode (form : Form) : Parser Node := do
  let lo ← pos
  bump
  node form lo []

def argument : Parser Node := do
  let lo ← pos
  if ← eat .ellipsis then
    let e ← r.fullAssignment
    node .spread lo [e]
  else r.fullAssignment

def arguments : Parser (List Node) := do
  expect .parenOpen
  let es ← adjust ({ · with beforeColon := false }) (separated .parenClose (argument r))
  expect .parenClose
  return es

def arrayLiteral : Parser Node := do
  let lo ← pos
  expect .bracketOpen
  let elements ← adjust ({ · with beforeColon := false }) <| loop [] fun elements => do
    if ← is .bracketClose then return (elements, false)
    if ← is .comma then return ((← tokenNode .hole) :: elements, true)
    let e ← argument r
    unless ← is .bracketClose do expect .comma
    return (e :: elements, true)
  expect .bracketClose
  node .array lo elements.reverse

def regularExpression : Parser Node := do
  modify Lexer.rereadRegex
  unless ← is .regex do unexpected
  tokenNode .constant

def template (tagged : Bool) : Parser Node :=
  adjust ({ · with beforeColon := false }) (templateOf tagged r.fullExpression)

/-! ### Arrow functions and parentheses -/

/-- The body of an arrow function: a block or an expression. -/
def arrowBody (flow : Flow) : Parser Node := do
  if ← is .braceOpen then adjust (inFunction flow) r.block
  else adjust ({ · with flow }) r.assignment

/-- An arrow function behind its arrow. -/
def arrowFrom (lo : Nat) (flow : Flow) (ps : Node) (types : List Node) : Parser Node := do
  let body ← arrowBody r flow
  node (.arrow flow) lo (ps :: body :: types)

/-- The arrow function with one bare name as its parameter. -/
def bareArrow (lo : Nat) (flow : Flow) (param : Node) : Parser Node := do
  expect .arrow
  arrowFrom r lo flow (.mk .parameters param.lo param.hi [param]) []

/-- What may stand between parentheses as an expression or as a parameter. -/
structure Item where
  isPattern : Bool
  node : Node

/-- The items as parameters. Others than the last one that take all arguments are left out. -/
def itemsAsParameters : List Item → Parser (List Node)
  | [] => return []
  | [⟨_, .mk .spread lo hi [e]⟩] => do
    return [.mk .restPattern lo hi [← asPattern .binding e]]
  | ⟨isPattern, n⟩ :: rest => do
    if n.form == .spread || (n.form == .restPattern && !rest.isEmpty) then
      itemsAsParameters rest
    else
      let n ← if isPattern then pure n else asPattern .binding n
      return n :: (← itemsAsParameters rest)

/-- The branches of a conditional expression behind its question mark. -/
def branches (lo : Nat) (test : Node) : Parser Node := do
  let yes ← adjust ({ · with allowIn := true, inConditional := true, beforeColon := true })
    r.assignment
  expect .colon
  let no ← adjust ({ · with inConditional := true, beforeColon := false }) r.assignment
  node .conditional lo [test, yes, no]

/-- An item as a pattern, with its type and default value. -/
def patternItem (lo : Nat) (e : Node) : Parser Item := do
  let n ←
    match e with
    | .mk .spread lo hi [inner] => do
      let inner ← asPattern .binding inner
      pure (Node.mk .restPattern lo hi [inner])
    | e => asPattern .binding e
  let n ← annotated r n
  if ← eat .assign then
    let value ← r.assignment
    return ⟨true, ← node .defaultPattern lo [n, value]⟩
  return ⟨true, n⟩

/-- One item between parentheses. What begins with a name is read only as far as a question mark
that may make a parameter optional. -/
def item : Parser Item := do
  let start ← pos
  let inside := fun mode : Mode => { mode with arrowAt := some start }
  skipModifier
  let lo ← pos
  let isNamed := (← kind).isReference || ((← is .ellipsis) && (← peek).kind.isReference)
  let e ←
    if isNamed then
      if ← is .ellipsis then
        bump
        let e ← adjust inside r.binary
        node .spread lo [e]
      else
        let e ← adjust inside r.binary
        if ← isOneOf [.assign, .assignWith] then r.finishAssignment start e else pure e
    else argument r
  if ← is .question then
    let next ← peek
    if [.comma, .colon, .parenClose, .assign].contains next.kind then
      bump
      match e.form with
      | .name _ | .spread => return ← patternItem r lo e
      | _ => failAt e.lo
    if e.form != .spread then
      bump
      return ⟨false, ← branches r start e⟩
  if ← is .colon then patternItem r lo e else return ⟨false, e⟩

/-- The items between parentheses. -/
def items : Parser (List Item) := do
  expect .parenOpen
  let inside := fun mode : Mode => { mode with allowIn := true, beforeColon := false }
  let list ← adjust inside <| loop [] fun acc => do
    if ← is .parenClose then return (acc, false)
    let i ← item r
    if ← is .parenClose then return (i :: acc, false)
    expect .comma
    return (i :: acc, true)
  expect .parenClose
  return list.reverse

/-- The expressions that the items are when no arrow follows. -/
def itemsAsExpressions (list : List Item) : Parser (List Node) := do
  list.mapM fun i => do
    match i.node with
    | .mk .spread _ _ [e] => failAt e.lo
    | n => return n

/-- An arrow function in a branch of a conditional expression, where the type of its result
begins with the sign that also ends the branch. -/
def arrowInBranch? (lo : Nat) (flow : Flow) (list : List Item) : Parser (Option Node) := do
  unless (← read).inConditional && (← is .colon) do return none
  attempt do
    let t ← resultType r .colon
    expect .arrow
    let ps ← itemsAsParameters list
    let n ← arrowFrom r lo flow (.mk .parameters lo lo ps) [t]
    if (← read).beforeColon && !(← is .colon) then return none
    return some n

/-- The type of the result of an arrow function. -/
def arrowResult? : Parser (List Node) := do
  if (← read).beforeColon || !(← is .colon) then return []
  let t ← attempt do
    let t ← resultType r .colon
    if ← is .arrow then return some t else return none
  return t.toList

/-- Parentheses around expressions, or the parameters of an arrow function and all of it. With
`asyncAt` the word in front of them stands there, which is called when no arrow follows. -/
def parenOrArrow (canBeArrow : Bool) (asyncAt : Option Nat) : Parser Node := do
  let open_ ← pos
  let lo := asyncAt.getD open_
  let flow : Flow := ⟨asyncAt.isSome, false⟩
  let list ← items r
  let close ← previousEnd
  if let some n ← arrowInBranch? r lo flow list then return n
  let types ← arrowResult? r
  if list.any (·.isPattern) || !types.isEmpty || (← is .arrow) then
    if ← lineBreak then unexpected
    unless canBeArrow do failAt lo
    expect .arrow
    let ps ← itemsAsParameters list
    let n ← arrowFrom r lo flow (.mk .parameters open_ close ps) types
    let hasBlock := (n.parts.drop 1).head?.any (·.form == .block)
    if hasBlock && (← kind).isBinarySign then unexpected
    return n
  match asyncAt with
  | some at_ =>
    let es := list.map (·.node)
    node .call lo (.mk (.name "async") at_ (at_ + 5) [] :: es)
  | none =>
    match ← itemsAsExpressions list with
    | [] => failAt lo
    | [e] => node .paren lo [e]
    | e :: es => node .paren lo [.mk .sequence e.lo ((es.getLast?.map (·.hi)).getD e.hi) (e :: es)]

/-- `async <T>(…) => …` -/
def genericAsyncArrow : Parser (Option Node) := attempt do
  let lo ← pos
  bump
  if ← lineBreak then return none
  let tps ← typeParameters r
  expect .parenOpen
  let flow : Flow := ⟨true, false⟩
  let ps ← adjust (inFunction flow) (parameters (parameter r))
  expect .parenClose
  let t ← resultType? r .colon
  if ← lineBreak then return none
  expect .arrow
  return some (← arrowFrom r lo flow ps (tps :: t))

/-- A name, or an arrow function that begins with one. -/
def nameOrArrow : Parser Node := do
  let lo ← pos
  let canBeArrow := (← read).arrowAt == some lo
  let isAsync ← is .kwAsync
  if isAsync then
    let next ← peek
    if next.kind == .kwFunction && !next.lineBreak then return ← functionExpression r
    if canBeArrow && next.kind == .less then
      if let some n ← genericAsyncArrow r then return n
    if canBeArrow && next.kind == .parenOpen && !next.lineBreak then
      bump
      return ← parenOrArrow r canBeArrow (some lo)
  let n ← wordNode
  if !canBeArrow || (← lineBreak) then return n
  if isAsync && (← kind).isWord && !(← kind).isReserved then
    let p ← wordNode
    if p.form == .name "as" && !(← is .arrow) then
      let t ← freshType r
      return ← node .assertion lo [n, t]
    return ← bareArrow r lo ⟨true, false⟩ p
  if ← is .arrow then bareArrow r lo {} n else return n

def privateName : Parser Node := do
  let l ← get
  bump
  if (← pos) != l.endPos then unexpected
  let _ ← word
  node .privateName l.pos []

def primary : Parser Node := do
  let l ← get
  match l.kind with
  | .kwThis => tokenNode .thisWord
  | .kwNull | .kwTrue | .kwFalse => tokenNode .constant
  | .string => tokenNode (.string l.token.text)
  | .number => tokenNode (.number (l.token.text.getD ""))
  | .bigInt => tokenNode (.bigInt (l.token.text.getD ""))
  | .slash => regularExpression
  | .assignWith => if l.here.startsWith "/=" then regularExpression else unexpected
  | .templateWhole | .templateHead => template r false
  | .bracketOpen => arrayLiteral r
  | .braceOpen => object r
  | .kwFunction => functionExpression r
  | .kwClass => classFrom r l.pos false
  | .hash => privateName
  | .parenOpen => parenOrArrow r ((← read).arrowAt == some l.pos) none
  | k => if k.isReference || k == .kwLet then nameOrArrow r else unexpected

/-! ### Members and calls -/

/-- Tokens with which an expression begins. -/
def startsExpression (k : Kind) : Bool :=
  (k.isWord && (!k.isReserved || [.kwThis, .kwNull, .kwTrue, .kwFalse, .kwNew, .kwSuper,
    .kwFunction, .kwClass, .kwImport, .kwTypeof, .kwVoid, .kwDelete].contains k))
  || [.string, .number, .bigInt, .regex, .templateWhole, .templateHead, .braceOpen, .parenOpen,
    .bracketOpen, .plus, .minus, .not, .bitNot, .increment, .decrement, .slash, .less, .hash,
    .at].contains k

/-- Type arguments that belong to the expression in front of them and not to a call or to a
comparison. -/
def endsInstantiation : Parser Bool := do
  let k ← kind
  if [.less, .greater, .plus, .minus, .parenOpen, .templateWhole, .templateHead].contains k then
    return false
  return (← lineBreak) || k.precedence != 0 || !startsExpression k

def atTemplate : Parser Bool := isOneOf [.templateWhole, .templateHead]

/-- An expression with type arguments and what they are for. -/
def withTypeArguments (e : Node) (noCall : Bool) : Parser (Option Node) := attempt do
  let t ← typeArguments r
  if (← is .parenOpen) && !noCall then
    let es ← arguments r
    return some (← node .call e.lo (e :: es ++ [t]))
  if ← atTemplate then
    let tpl ← template r true
    return some (← node .tagged e.lo [e, t, tpl])
  if ← endsInstantiation then return some (← node .instantiation e.lo [e, t])
  return none

/-- A name behind a point. -/
def memberName : Parser Node := do
  if ← is .hash then privateName else wordNode

def subscriptInBrackets (e : Node) (form : Form) : Parser Node := do
  bump
  let index ← adjust ({ · with beforeColon := false }) r.fullExpression
  expect .bracketClose
  node form e.lo [e, index]

/-- What follows the sign of an optional chain. -/
def optionalLink (e : Node) : Parser Node := do
  bump
  if ← is .bracketOpen then return ← subscriptInBrackets r e .optionalChain
  let ts ← typeArguments? r
  if !ts.isEmpty || (← is .parenOpen) then
    let es ← arguments r
    return ← node .optionalChain e.lo (e :: es ++ ts)
  if ← atTemplate then
    let tpl ← template r true
    return ← node .optionalChain e.lo [e, tpl]
  let n ← memberName
  node .optionalChain e.lo [e, n]

/-- One more link behind an expression, if there is one. -/
def subscript? (noCall : Bool) (e : Node) : Parser (Option Node) := do
  let isSuper := e.form == .superWord
  if (← is .not) && !(← lineBreak) && !isSuper then
    bump
    return some (← node .assertion e.lo [e])
  if !isSuper && (← atLess) then
    if let some n ← withTypeArguments r e noCall then return some n
  match ← kind with
  | .optionalDot => return some (← optionalLink r e)
  | .bracketOpen => return some (← subscriptInBrackets r e .member)
  | .parenOpen =>
    if noCall then return none
    let es ← arguments r
    return some (← node .call e.lo (e :: es))
  | .dot =>
    bump
    let n ← memberName
    return some (← node .member e.lo [e, n])
  | .templateWhole | .templateHead =>
    let tpl ← template r true
    return some (← node .tagged e.lo [e, tpl])
  | _ => return none

/-- All links behind an expression. -/
def subscripts (noCall : Bool) (e : Node) : Parser Node :=
  loop e fun e => do
    match ← subscript? r noCall e with
    | some e => return (e, true)
    | none =>
      if e.form == .superWord then unexpected
      return (e, false)

/-- `import.meta` or a call of `import`. -/
def importExpression (noCall : Bool) : Parser Node := do
  let lo ← pos
  bump
  if ← eat .dot then
    unless (← text) == "meta" do unexpected
    bump
    subscripts r noCall (← node .metaProperty lo [])
  else
    let es ← arguments r
    subscripts r noCall (← node .importCall lo es)

/-- Type arguments in front of a call. -/
def callTypeArguments? : Parser (List Node) := do
  let ts ← attempt do
    unless ← atLess do return none
    let t ← typeArguments r
    if ← is .parenOpen then return some t else return none
  return ts.toList

def isOptional (e : Node) : Bool :=
  e.form == .optionalChain
    || (e.form == .member && e.parts.head?.any (·.form == .optionalChain))

/-- `new` and what it constructs. -/
def construct : Parser Node := do
  let lo ← pos
  bump
  if ← eat .dot then
    unless (← text) == "target" do unexpected
    bump
    return ← subscripts r true (← node .metaProperty lo [])
  let callee ← r.construction
  if isOptional callee then failAt callee.lo
  let ts ← callTypeArguments? r
  if ← is .parenOpen then
    let es ← arguments r
    subscripts r true (← node (.new true) lo (callee :: es ++ ts))
  else node (.new false) lo [callee]

/-- An expression with its members but without calls. -/
def construction : Parser Node := do
  match ← kind with
  | .kwNew => construct r
  | .kwSuper => subscripts r true (← tokenNode .superWord)
  | .kwImport => importExpression r true
  | _ =>
    let e ← primary r
    if ← isWholeArrow e then return e
    subscripts r true e

def leftHandSide : Parser Node := do
  if (← read).jsx && (← is .less) then
    let e ← r.element
    bump
    return e
  match ← kind with
  | .kwSuper => subscripts r false (← tokenNode .superWord)
  | .kwImport => importExpression r false
  | _ =>
    let e ← r.construction
    if ← isWholeArrow e then return e
    if e.form == .new false then return e
    let ts ← callTypeArguments? r
    if ← is .parenOpen then
      let es ← arguments r
      subscripts r false (← node .call e.lo (e :: es ++ ts))
    else return e

/-! ### Operators -/

/-- The word `await` and its operand. Outside asynchronous functions it may be a name. -/
def awaitExpression : Parser Node := do
  let lo ← pos
  bump
  if ← is .star then unexpected
  let ends := [.semicolon, .parenClose, .bracketClose, .assign, .comma, .eof].contains (← kind)
  if !(← read).flow.isAsync && (ends || (← lineBreak)) then node (.name "await") lo []
  else
    let e ← r.unary
    node .await lo [e]

def unaryKinds : List Kind :=
  [.kwDelete, .kwVoid, .kwTypeof, .plus, .minus, .bitNot, .not]

def unary : Parser Node := do
  let lo ← pos
  if !(← read).jsx && (← is .less) then
    bump
    let t ← if ← is .kwConst then tokenNode .type else freshType r
    expect .greater
    let e ← r.unary
    return ← node .assertion lo [e, t]
  if ← isOneOf [.increment, .decrement] then
    bump
    let e ← r.unary
    return ← node .update lo [e]
  if ← isOneOf unaryKinds then
    bump
    let e ← recover r.unary
    return ← node .unary lo e.toList
  if ← is .kwAwait then return ← awaitExpression r
  let e ← r.leftHandSide
  if (← isWholeArrow e) || (← lineBreak) then return e
  if ← isOneOf [.increment, .decrement] then
    bump
    return ← node .update lo [e]
  return e

/-- The precedence of `in`, below which assertions about types stand as well. -/
def assertionPrecedence : Nat := 7

/-- One more operator and operand that bind more tightly than `min`, if there are. -/
def operator? (min : Nat) (left : Node) : Parser (Option Node) := do
  if (← isOneOf [.kwAs, .kwSatisfies]) && min < assertionPrecedence && !(← lineBreak) then
    let isAs ← is .kwAs
    bump
    let t ← if isAs && (← is .kwConst) then tokenNode .type else freshType r
    return some (← node .assertion left.lo [left, t])
  if ← is .greater then modify Lexer.rereadGreater
  let k ← kind
  if k.precedence ≤ min || (k == .kwIn && !(← read).allowIn) then return none
  bump
  if k == .power && (left.form == .unary || left.form == .await) then unexpected
  let right ← r.operators (← r.unary) (if k == .power then k.precedence - 1 else k.precedence)
  return some (.mk (.binary (k == .plus)) left.lo right.hi [left, right])

def operators (left : Node) (min : Nat) : Parser Node :=
  loop left fun left => do
    match ← operator? r min left with
    | some n => return (n, true)
    | none => return (left, false)

/-- An operand; one that is missing in front of an operator does no harm. -/
def operand : Parser Node := fun mode l =>
  match r.unary mode l with
  | .ok n l => .ok n l
  | .error e l =>
    if l.kind.isBinarySign || l.kind == .kwInstanceof || (l.kind == .kwIn && mode.allowIn) then
      .ok (.mk .broken l.pos l.pos []) l
    else .error e l

def binary : Parser Node := do
  let left ← operand r
  if ← isWholeArrow left then return left
  operators r left 0

def conditional : Parser Node := do
  let lo ← pos
  let test ← binary r
  if ← isWholeArrow test then return test
  if ← eat .question then branches r lo test else return test

/-! ### Assignments -/

/-- Expressions to which a value can be assigned. -/
def isTarget : Form → Bool
  | .name _ | .member | .optionalChain | .paren | .assertion | .instantiation => true
  | .arrayPattern | .objectPattern | .broken => true
  | _ => false

/-- The assignment to `target`, if one follows. -/
def finishAssignment (lo : Nat) (target : Node) : Parser Node := do
  let isPlain ← is .assign
  unless isPlain || (← is .assignWith) do return target
  let target ← if isPlain then asPattern .target target else pure target
  unless isTarget target.form do failAt target.lo
  bump
  let value ← r.assignment
  node (.assignment isPlain) lo [target, value]

def yieldExpression : Parser Node := do
  let lo ← pos
  bump
  if (← lineBreak) || !((← is .star) || startsExpression (← kind)) then node .yield lo []
  else
    let _ ← eat .star
    let e ← r.assignment
    node .yield lo [e]

def plainAssignment : Parser Node := do
  let lo ← pos
  if (← read).flow.isGenerator && (← is .kwYield) then return ← yieldExpression r
  let e ← adjust ({ · with arrowAt := some lo }) (conditional r)
  match e.form with
  | .arrow _ | .conditional | .binary _ | .unary | .update => return e
  | _ => finishAssignment r lo e

/-- `<T>(…) => …` -/
def genericArrow : Parser (Option Node) := attempt do
  let lo ← pos
  let tps ← typeParameters r
  match ← plainAssignment r with
  | .mk (.arrow flow) _ hi parts => return some (.mk (.arrow flow) lo hi (parts ++ [tps]))
  | _ => return none

def assignment : Parser Node := do
  if ← is .less then
    if (← read).jsx then
      if let some e ← attempt (some <$> plainAssignment r) then return e
    if (← peek).kind.isWord then
      if let some e ← genericArrow r then return e
  plainAssignment r

def expression : Parser Node := do
  let e ← assignment r
  unless ← is .comma do return e
  let es ← loop [e] fun es => do
    if ← eat .comma then return ((← assignment r) :: es, true)
    return (es, false)
  node .sequence e.lo es.reverse

end Grammar

end Phrasebook.Script
