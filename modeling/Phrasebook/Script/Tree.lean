/-!
# Syntax trees

A node has a form, the bytes from `lo` up to `hi` that it covers, and its parts in the order in
which they are visited. The forms name what later passes ask about and what declares names;
statements and types that do neither share a form.
-/

namespace Phrasebook.Script

/-- How a function runs. -/
structure Flow where
  isAsync : Bool := false
  isGenerator : Bool := false
deriving DecidableEq

inductive Form where
  /-- A name that is read or bound. A bound one has its type as a part. -/
  | name (text : String)
  | privateName
  /-- A string literal; without a value when its text has a lone surrogate. -/
  | string (value : Option String)
  /-- A template; its parts are the expressions in it, and it has a value only without any. -/
  | template (value : Option String)
  | number (text : String)
  | bigInt (text : String)
  /-- A regular expression or a constant word. -/
  | constant
  | thisWord
  | array
  | hole
  | spread
  | object
  /-- A key and its value. -/
  | property
  /-- A name that is key and value. -/
  | shorthand
  /-- A name with a default value. -/
  | shorthandDefault
  | accessor
  /-- A key and its function. -/
  | method
  /-- A key given by an expression. -/
  | computedKey
  /-- Parameters, body, types and its name, if it has one of its own. -/
  | function (flow : Flow)
  | functionName (text : String)
  /-- Parameters, body, types. -/
  | arrow (flow : Flow)
  /-- The parameters of a function. -/
  | parameters
  /-- What a function without a body has in its place. -/
  | absent
  | classForm (name : Option String)
  | unary
  | update
  | binary (isPlus : Bool)
  | assignment (isPlain : Bool)
  | conditional
  | sequence
  | paren
  | call
  | importCall
  | new (hasArguments : Bool)
  | member
  | optionalChain
  | superWord
  | tagged
  | metaProperty
  | await
  | yield
  /-- An expression with an assertion about its type. -/
  | assertion
  /-- An expression with type arguments. -/
  | instantiation
  | element
  /-- What stands for an expression where there is none. -/
  | broken
  | arrayPattern
  | objectPattern
  /-- A pattern with a default value. -/
  | defaultPattern
  | restPattern
  /-- A type and the expressions in it. -/
  | type
  | block
  | expressionStatement
  | returnStatement
  | variableList (isVar : Bool)
  | declarator
  /-- A function or a class that is declared. -/
  | declaration
  /-- An enumeration; its parts are its members. -/
  | enumeration (name : String)
  /-- A namespace, whose name may have points in it, or without a name a module that is declared
  for other files. -/
  | namespaceForm (names : List String)
  /-- A declaration of what is found elsewhere. -/
  | ambient
  | forStatement
  /-- What is looked at, then the cases. -/
  | switchStatement
  /-- A block and what handles its failures. -/
  | tryStatement
  | statement
  /-- An import; its parts are its bindings. -/
  | importItem (typeOnly : Bool)
  | importBinding (typeOnly : Bool) (bound : String)
  /-- An import that gives another name to something; its part is its binding. -/
  | importEquals (typeOnly : Bool)
  | item
deriving DecidableEq

inductive Node where
  | mk (form : Form) (lo hi : Nat) (parts : List Node)

namespace Node

def form : Node → Form
  | mk form _ _ _ => form

def lo : Node → Nat
  | mk _ lo _ _ => lo

def hi : Node → Nat
  | mk _ _ hi _ => hi

def parts : Node → List Node
  | mk _ _ _ parts => parts

end Node

end Phrasebook.Script
