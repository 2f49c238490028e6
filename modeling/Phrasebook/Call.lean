import Phrasebook.Candidate
import Phrasebook.Options
import Phrasebook.Text.Hex

/-!
# Calls of the runtime

What stands in the place of a returned text: a call of the runtime with the id of the message and,
if there are any, an object with its values.
-/

namespace Phrasebook

/-! ### String literals -/

def isControl (c : Char) : Bool := c.toNat < 0x20 || (0x7f ≤ c.toNat && c.toNat < 0xa0)

def literalChar (c : Char) : List Char :=
  if c = '"' then ['\\', '"']
  else if c = '\\' then ['\\', '\\']
  else if c = '\n' then ['\\', 'n']
  else if c = '\r' then ['\\', 'r']
  else if c = '\t' then ['\\', 't']
  else if c.toNat = 0x2028 ∨ c.toNat = 0x2029 ∨ isControl c then
    '\\' :: 'u' :: Text.hexDigits4 c.toNat
  else [c]

/-- A text as a string literal of a script, in double quotes on one line. -/
def stringLiteral (s : String) : String :=
  String.ofList ('"' :: s.toList.flatMap literalChar ++ ['"'])

/-! ### Calls -/

/-- The marks around a call in debug mode. -/
def debugMarks : String × String := ("⟦", "⟧")

def valueOf (mode : ArgMode) (p : Param) : String :=
  match mode with
  | .named => p.name
  | .indexed => "\"" ++ toString p.index ++ "\": " ++ p.name

/-- The members of the object with the values of a message. -/
def callMembers (text : String) (params : List Param) (o : Options) : List String :=
  (if o.setDefault then ["defaultValue: " ++ stringLiteral text] else [])
    ++ params.map (valueOf o.argMode)

def plainCall (id text : String) (params : List Param) (o : Options) : String :=
  match callMembers text params o with
  | [] => o.runtimeId ++ ".t(\"" ++ id ++ "\")"
  | members =>
    o.runtimeId ++ ".t(\"" ++ id ++ "\", \x7b "
      ++ String.ofList (Text.join [',', ' '] (members.map String.toList)) ++ " \x7d)"

/-- The call for a message with an id, a text and parameters. -/
def callExpression (id text : String) (params : List Param) (o : Options) : String :=
  let call := plainCall id text params o
  if o.debug then
    "`" ++ debugMarks.1 ++ "$\x7b" ++ call ++ "\x7d" ++ debugMarks.2 ++ "`"
  else call

end Phrasebook
