/-!
# Tokens

The tokens of a script. A word is a name, a keyword or one of the words that mean something only
in some places; all of them carry their spelling, and literals carry their value.
-/

namespace Phrasebook.Script

inductive Kind where
  /-- End of the text. -/
  | eof
  /-- Characters that make no token. -/
  | invalid
  | name | number | bigInt | string | regex
  /-- A template without substitutions, and the pieces of one that has some. -/
  | templateWhole | templateHead | templateMiddle | templateTail
  | jsxText
  | braceOpen | braceClose | parenOpen | parenClose | bracketOpen | bracketClose
  | semicolon | comma | colon | question | optionalDot | dot | ellipsis | arrow | at | hash
  | less | greater | lessEqual | greaterEqual | equal | notEqual | same | notSame
  | plus | minus | star | slash | percent | power | increment | decrement
  | shiftLeft | shiftRight | shiftRightZero | bitAnd | bitOr | bitXor | not | bitNot
  | and | or | coalesce | assign
  /-- An assignment with an operation. -/
  | assignWith
  | kwAwait | kwBreak | kwCase | kwCatch | kwClass | kwConst | kwContinue | kwDebugger | kwDefault
  | kwDelete | kwDo | kwElse | kwExport | kwExtends | kwFalse | kwFinally | kwFor | kwFunction
  | kwIf | kwImport | kwIn | kwInstanceof | kwLet | kwNew | kwNull | kwReturn | kwSuper | kwSwitch
  | kwThis | kwThrow | kwTrue | kwTry | kwTypeof | kwVar | kwVoid | kwWhile | kwWith | kwYield
  | kwAbstract | kwAccessor | kwAny | kwAs | kwAsserts | kwAsync | kwBigint | kwBoolean | kwDeclare
  | kwEnum | kwFrom | kwGet | kwGlobal | kwImplements | kwInfer | kwInterface | kwIntrinsic | kwIs
  | kwKeyof | kwModule | kwNamespace | kwNever | kwNumber | kwObject | kwOf | kwOut | kwOverride
  | kwPrivate | kwProtected | kwPublic | kwReadonly | kwRequire | kwSatisfies | kwSet | kwStatic
  | kwString | kwSymbol | kwType | kwUndefined | kwUnique | kwUnknown | kwUsing
deriving DecidableEq

namespace Kind

def keywords : List (String × Kind) := [
  ("await", kwAwait), ("break", kwBreak), ("case", kwCase), ("catch", kwCatch),
  ("class", kwClass), ("const", kwConst), ("continue", kwContinue), ("debugger", kwDebugger),
  ("default", kwDefault), ("delete", kwDelete), ("do", kwDo), ("else", kwElse),
  ("export", kwExport), ("extends", kwExtends), ("false", kwFalse), ("finally", kwFinally),
  ("for", kwFor), ("function", kwFunction), ("if", kwIf), ("import", kwImport), ("in", kwIn),
  ("instanceof", kwInstanceof), ("let", kwLet), ("new", kwNew), ("null", kwNull),
  ("return", kwReturn), ("super", kwSuper), ("switch", kwSwitch), ("this", kwThis),
  ("throw", kwThrow), ("true", kwTrue), ("try", kwTry), ("typeof", kwTypeof), ("var", kwVar),
  ("void", kwVoid), ("while", kwWhile), ("with", kwWith), ("yield", kwYield)]

/-- Words that may be names too. -/
def contextualWords : List (String × Kind) := [
  ("abstract", kwAbstract), ("accessor", kwAccessor), ("any", kwAny), ("as", kwAs),
  ("asserts", kwAsserts), ("async", kwAsync), ("bigint", kwBigint), ("boolean", kwBoolean),
  ("declare", kwDeclare), ("enum", kwEnum), ("from", kwFrom), ("get", kwGet),
  ("global", kwGlobal), ("implements", kwImplements), ("infer", kwInfer),
  ("interface", kwInterface), ("intrinsic", kwIntrinsic), ("is", kwIs), ("keyof", kwKeyof),
  ("module", kwModule), ("namespace", kwNamespace), ("never", kwNever), ("number", kwNumber),
  ("object", kwObject), ("of", kwOf), ("out", kwOut), ("override", kwOverride),
  ("private", kwPrivate), ("protected", kwProtected), ("public", kwPublic),
  ("readonly", kwReadonly), ("require", kwRequire), ("satisfies", kwSatisfies), ("set", kwSet),
  ("static", kwStatic), ("string", kwString), ("symbol", kwSymbol), ("type", kwType),
  ("undefined", kwUndefined), ("unique", kwUnique), ("unknown", kwUnknown), ("using", kwUsing)]

/-- The kind of a word by its spelling. -/
def ofWord (word : String) : Kind :=
  match keywords.lookup word with
  | some k => k
  | none => (contextualWords.lookup word).getD name

def isKeyword (k : Kind) : Bool := kwAwait.ctorIdx ≤ k.ctorIdx && k.ctorIdx ≤ kwYield.ctorIdx

def isContextual (k : Kind) : Bool := kwAbstract.ctorIdx ≤ k.ctorIdx

def isWord (k : Kind) : Bool := k == name || k.isKeyword || k.isContextual

/-- Keywords that cannot be names anywhere. -/
def isReserved : Kind → Bool
  | kwAwait | kwLet | kwYield => false
  | k => k.isKeyword

/-- Words that name something in the code of a module. -/
def isReference : Kind → Bool
  | kwLet | kwYield => false
  | k => k.isWord && !k.isReserved

/-- How tightly a binary operator binds; zero for all other tokens. -/
def precedence : Kind → Nat
  | coalesce | or => 1
  | and => 2
  | bitOr => 3
  | bitXor => 4
  | bitAnd => 5
  | equal | notEqual | same | notSame => 6
  | less | greater | lessEqual | greaterEqual | kwIn | kwInstanceof => 7
  | shiftLeft | shiftRight | shiftRightZero => 8
  | plus | minus => 9
  | star | slash | percent => 10
  | power => 11
  | _ => 0

/-- Operators between two operands that are no words. -/
def isBinarySign : Kind → Bool
  | kwIn | kwInstanceof => false
  | k => k.precedence != 0

/-- After these a block comment on the same line belongs to the token in front of it. -/
def keepsBlockComment : Kind → Bool
  | number | bigInt | string | regex | name | templateHead | templateMiddle | braceOpen
  | braceClose | semicolon | jsxText => true
  | k => k.isContextual

/-- After these a line comment on the same line belongs to the token in front of it. -/
def keepsLineComment (k : Kind) : Bool := !k.isBinarySign

end Kind

structure Token where
  kind : Kind
  /-- The spelling of a word or the value of a literal, if it can be written as text. -/
  text : Option String := none
  /-- The place of what is wrong with characters that make no token or with a template. -/
  fault : Option Nat := none
deriving DecidableEq

end Phrasebook.Script
