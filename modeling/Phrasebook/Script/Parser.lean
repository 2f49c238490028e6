import Phrasebook.Script.Lexer
import Phrasebook.Script.Tree

/-!
# Parsing with one token in hand

A parser works on a lexer, whose current token it has in hand, in a mode that says what surrounds
it. A failure keeps the lexer where it is, since some rules go on behind a mistake; `attempt` goes
back to where it began. `Rules` are the rules of the grammar that call each other in a circle.
-/

namespace Phrasebook.Script

/-- A mistake that ends parsing, by its place. -/
structure SyntaxFailure where
  offset : Nat
deriving DecidableEq, Repr

structure Mode where
  /-- Whether tags of elements are allowed. -/
  jsx : Bool
  /-- How the function around runs. -/
  flow : Flow := {}
  /-- Whether the word `in` is an operator. -/
  allowIn : Bool := true
  /-- Where an arrow function may begin. -/
  arrowAt : Option Nat := none
  /-- Inside a branch of a conditional expression. -/
  inConditional : Bool := false
  /-- Inside the branch that a colon ends. -/
  beforeColon : Bool := false
  /-- Inside a declaration without values. -/
  ambient : Bool := false
  /-- Where a type ends in front of `extends`. -/
  noConditionalType : Bool := false

abbrev Parser := ReaderT Mode (EStateM SyntaxFailure Lexer)

namespace Parser

variable {α : Type}

def kind : Parser Kind := return (← get).kind

def text : Parser String := return (← get).token.text.getD ""

/-- Where the current token begins. -/
def pos : Parser Nat := return (← get).pos

/-- Where the token before ends. -/
def previousEnd : Parser Nat := return (← get).previousEnd

def lineBreak : Parser Bool := return (← get).lineBreak

def bump : Parser Unit := modify Lexer.next

def failAt (offset : Nat) : Parser α := throw ⟨offset⟩

/-- The current token does not fit. -/
def unexpected : Parser α := do
  let l ← get
  failAt (if l.kind == .invalid then l.token.fault.getD l.pos else l.pos)

def is (k : Kind) : Parser Bool := return (← get).kind == k

def isOneOf (ks : List Kind) : Parser Bool := return ks.contains (← get).kind

def eat (k : Kind) : Parser Bool := do
  if ← is k then
    bump
    return true
  return false

def expect (k : Kind) : Parser Unit := do
  unless ← eat k do unexpected

/-- The lexer behind the current token. -/
def peek : Parser Lexer := return (← get).next

def peekIs (k : Kind) : Parser Bool := return (← peek).kind == k

/-- Runs `p`; when it fails or gives nothing, goes back. -/
def attempt (p : Parser (Option α)) : Parser (Option α) := fun mode l =>
  match p mode l with
  | .ok (some a) l => .ok (some a) l
  | _ => .ok none l

/-- Whether `p` succeeds with `true` from here on; goes back in any case. -/
def lookAhead (p : Parser Bool) : Parser Bool := fun mode l =>
  match p mode l with
  | .ok b _ => .ok b l
  | .error _ _ => .ok false l

/-- Runs `p` and gives nothing when it fails, but stays where it failed. -/
def recover (p : Parser α) : Parser (Option α) := fun mode l =>
  match p mode l with
  | .ok a l => .ok (some a) l
  | .error _ l => .ok none l

def adjust (f : Mode → Mode) (p : Parser α) : Parser α := fun mode => p (f mode)

def iterate (step : α → Parser (α × Bool)) : Nat → α → Parser α
  | 0, _ => unexpected
  | n + 1, a => do
    let (a, more) ← step a
    if more then iterate step n a else return a

/-- Repeats a step that reads at least one token as long as it says so. -/
def loop (a : α) (step : α → Parser (α × Bool)) : Parser α := do
  iterate step (← get).remaining a

/-- A node from the place `lo` up to the end of the token before. -/
def node (form : Form) (lo : Nat) (parts : List Node) : Parser Node :=
  return .mk form lo (← previousEnd) parts

/-- Elements until `stop` holds, which is asked before each one. -/
def many (stop : Parser Bool) (element : Parser Node) : Parser (List Node) := do
  let nodes ← loop [] fun nodes => do
    if ← stop then return (nodes, false)
    return ((← element) :: nodes, true)
  return nodes.reverse

/-- Elements with commas between them and possibly behind the last one, up to the token `close`,
which stays. -/
def separated (close : Kind) (element : Parser Node) : Parser (List Node) := do
  let nodes ← loop [] fun nodes => do
    if ← is close then return (nodes, false)
    let nodes := (← element) :: nodes
    if ← is close then return (nodes, false)
    expect .comma
    return (nodes, true)
  return nodes.reverse

/-! ### Words -/

/-- Any word, as its spelling. -/
def word : Parser String := do
  if (← kind).isWord then
    let name ← text
    bump
    return name
  else unexpected

/-- A word that may be bound to something. -/
def bindingWord : Parser String := do
  let k ← kind
  if k.isWord && (!k.isReserved || k == .kwThis) then word else unexpected

/-- Any word as a node. -/
def wordNode : Parser Node := do
  let lo ← pos
  let name ← word
  node (.name name) lo []

def bindingName : Parser Node := do
  let lo ← pos
  let name ← bindingWord
  node (.name name) lo []

/-! ### Ends of statements -/

/-- A statement can end here. -/
def atStatementEnd : Parser Bool := do
  let l ← get
  return l.kind == .semicolon || l.kind == .braceClose || l.kind == .eof || l.lineBreak

/-- The end of a statement: a semicolon, or a place where none is needed. -/
def eatStatementEnd : Parser Bool := do
  if ← eat .semicolon then return true
  atStatementEnd

def expectStatementEnd : Parser Unit := do
  unless ← eatStatementEnd do unexpected

/-! ### Modifiers -/

/-- Whether the word in hand is a modifier of what follows it. -/
def isModifier : Parser Bool := do
  let next ← peek
  let fits := next.kind.isWord || [.bracketOpen, .braceOpen, .star, .ellipsis, .hash, .string,
    .number, .bigInt].contains next.kind
  return fits && !next.lineBreak

def eatModifier (words : List Kind) : Parser (Option Kind) := do
  let k ← kind
  if words.contains k then
    if ← isModifier then
      bump
      return some k
  return none

/-- Skips a modifier of a parameter or property. -/
def skipModifier : Parser Unit := do
  if ← isOneOf [.kwPublic, .kwProtected, .kwPrivate, .kwReadonly] then
    let next ← peek
    if next.kind.isWord || next.kind == .braceOpen || next.kind == .bracketOpen then
      let _ ← eatModifier [.kwPublic, .kwProtected, .kwPrivate, .kwReadonly]

end Parser

/-- The rules that call each other in a circle. -/
structure Rules where
  /-- Expressions with commas between them. -/
  expression : Parser Node
  assignment : Parser Node
  unary : Parser Node
  /-- Operands with operators between them. -/
  binary : Parser Node
  /-- The assignment to a target that has been read, if one follows. -/
  finishAssignment : Nat → Node → Parser Node
  /-- The operators behind an operand that bind more tightly than a bound. -/
  operators : Node → Nat → Parser Node
  /-- What stands in front of calls: members and constructions. -/
  construction : Parser Node
  leftHandSide : Parser Node
  type : Parser Node
  pattern : Parser Node
  /-- A statement; a flag says whether it may be a declaration. -/
  statement : Bool → Parser Node
  block : Parser Node
  item : Parser Node
  element : Parser Node

namespace Rules

/-- An expression with the operator `in`, whatever surrounds it. -/
def fullExpression (r : Rules) : Parser Node :=
  Parser.adjust ({ · with allowIn := true }) r.expression

def fullAssignment (r : Rules) : Parser Node :=
  Parser.adjust ({ · with allowIn := true }) r.assignment

end Rules

end Phrasebook.Script
