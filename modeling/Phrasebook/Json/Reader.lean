import Phrasebook.Cursor
import Phrasebook.Json.Fault
import Phrasebook.Json.Numeral
import Phrasebook.Text.Hex
import Phrasebook.Text.Surrogates

/-!
# Reading JSON

A reader expects a value of one kind at the beginning of a text and reads it straight from there,
so that what is wrong first is what it reports. `record` reads the fields of a structure from an
object, or by position from an array; other fields of the object are skipped.
-/

namespace Phrasebook.Json

/-- A cause and its place; none for what was read well and is not fit. -/
structure Fault where
  cause : Cause
  place : Option Nat

abbrev Reader := EStateM Fault Cursor

namespace Reader

variable {α : Type}

/-! ### Steps -/

def failAt (place : Nat) (cause : Cause) : Reader α := throw ⟨cause, some place⟩

def fail (cause : Cause) : Reader α := do failAt (← get).pos cause

/-- Fails behind the first byte of the next character. -/
def failNext (cause : Cause) : Reader α := do
  let c ← get
  failAt (if c.rest.isEmpty then c.pos else c.pos + 1) cause

/-- Fails where the value ends that is not fit. -/
def failUnfit (cause : Cause) : Reader α := throw ⟨cause, none⟩

def skip : Reader Unit := modify (·.advance 1)

def peek : Reader (Option Char) := return (← get).rest.head?

def isBlank (c : Char) : Bool := c == ' ' || c == '\n' || c == '\t' || c == '\r'

/-- The next character behind blanks, which stays. -/
def peekBehindBlanks : Reader (Option Char) := do
  modify fun c => (c.span isBlank).2
  peek

/-- The character with which a value begins. -/
def valueStart : Reader Char := do
  match ← peekBehindBlanks with
  | some c => return c
  | none => failNext .endInValue

/-- The rest of a word. -/
def letters : List Char → Reader Unit
  | [] => pure ()
  | c :: cs => do
    match ← peek with
    | none => fail .endInValue
    | some x =>
      if x = c then
        skip
        letters cs
      else failNext .badWord

/-- Gives a place to what is not fit. -/
def placed (r : Reader α) : Reader α := fun c =>
  match r c with
  | .error ⟨cause, none⟩ c => .error ⟨cause, some c.pos⟩ c
  | result => result

/-- What stands between two brackets, of which `close` reads the second one. That one is looked for
even if the reader fails, which then says what is wrong. -/
def enclosed (close : Reader Unit) (r : Reader α) : Reader α := fun c =>
  match r c with
  | .ok a c =>
    match close c with
    | .ok _ c => .ok a c
    | .error e c => .error e c
  | .error e c =>
    match close c with
    | .ok _ c => .error e c
    | .error _ c => .error e c

/-- Repeats a step that reads something as long as it says so. -/
def iterate (step : α → Reader (α × Bool)) : Nat → α → Reader α
  | 0, _ => fail .noValue
  | n + 1, a => do
    let (a, more) ← step a
    if more then iterate step n a else return a

def loop (a : α) (step : α → Reader (α × Bool)) : Reader α := do
  iterate step ((← get).rest.length + 1) a

/-! ### Texts -/

def simpleEscape? : Char → Option Char
  | '"' => some '"'
  | '\\' => some '\\'
  | '/' => some '/'
  | 'b' => some (Char.ofNat 0x08)
  | 'f' => some (Char.ofNat 0x0c)
  | 'n' => some '\n'
  | 'r' => some '\r'
  | 't' => some '\t'
  | _ => none

/-- The number that the four hexadecimal digits at a place write. -/
def unitAt (pos : Nat) (cs : List Char) : Except Fault Nat :=
  if Text.byteLength cs < 4 then .error ⟨.endInText, some (pos + Text.byteLength cs)⟩
  else
    match Text.hexNumber? (cs.take 4) with
    | some n => .ok n
    | none => .error ⟨.badEscape, some (pos + 4)⟩

/-- The characters of a text at the place `pos` behind its opening quote, and the place behind the
closing one. A high surrogate has just been read if `high` is one. -/
def textFrom (high : Option Nat) (pos : Nat) : List Char → Except Fault (List Char × Cursor)
  | [] => .error ⟨.endInText, some pos⟩
  | '\\' :: 'u' :: a :: b :: c :: d :: rest => do
    let n ← unitAt (pos + 2) [a, b, c, d]
    match high with
    | none =>
      if Text.isLowSurrogate n then .error ⟨.loneSurrogate, some (pos + 6)⟩
      else if Text.isHighSurrogate n then textFrom (some n) (pos + 6) rest
      else
        let (cs, after) ← textFrom none (pos + 6) rest
        return (Char.ofNat n :: cs, after)
    | some h =>
      if Text.isLowSurrogate n then
        let (cs, after) ← textFrom none (pos + 6) rest
        return (Char.ofNat (Text.joinPair h n) :: cs, after)
      else .error ⟨.loneSurrogate, some (pos + 6)⟩
  | ['\\'] => .error ⟨.endInText, some (pos + 1)⟩
  | '\\' :: x :: rest =>
    if x = 'u' then do
      let _ ← unitAt (pos + 2) rest
      .error ⟨.badEscape, some (pos + 6)⟩
    else if high.isSome then .error ⟨.halfPair, some (pos + 2)⟩
    else
      match simpleEscape? x with
      | none => .error ⟨.badEscape, some (pos + 2)⟩
      | some y => do
        let (cs, after) ← textFrom none (pos + 2) rest
        return (y :: cs, after)
  | x :: rest =>
    if high.isSome then .error ⟨.halfPair, some (pos + 1)⟩
    else if x = '"' then .ok ([], ⟨rest, pos + 1⟩)
    else if x.toNat < 0x20 then .error ⟨.controlCharacter, some (pos + 1)⟩
    else do
      let (cs, after) ← textFrom none (pos + x.utf8Size) rest
      return (x :: cs, after)

/-- The place behind a text of which only its end matters, from behind its opening quote on. -/
def textEndFrom (pos : Nat) : List Char → Except Fault Cursor
  | [] => .error ⟨.endInText, some pos⟩
  | '\\' :: 'u' :: a :: b :: c :: d :: rest => do
    let _ ← unitAt (pos + 2) [a, b, c, d]
    textEndFrom (pos + 6) rest
  | ['\\'] => .error ⟨.endInText, some (pos + 1)⟩
  | '\\' :: x :: rest =>
    if x = 'u' then do
      let _ ← unitAt (pos + 2) rest
      .error ⟨.badEscape, some (pos + 6)⟩
    else if (simpleEscape? x).isSome then textEndFrom (pos + 2) rest
    else .error ⟨.badEscape, some (pos + 2)⟩
  | x :: rest =>
    if x = '"' then .ok ⟨rest, pos + 1⟩
    else if x.toNat < 0x20 then .error ⟨.controlCharacter, some (pos + 1)⟩
    else textEndFrom (pos + x.utf8Size) rest

/-- A text behind its opening quote. -/
def textBody : Reader String := fun c =>
  match textFrom none c.pos c.rest with
  | .ok (cs, after) => .ok (String.ofList cs) after
  | .error e => .error e c

def skipTextBody : Reader Unit := fun c =>
  match textEndFrom c.pos c.rest with
  | .ok after => .ok () after
  | .error e => .error e c

/-! ### Numbers -/

def isDigit (c : Char) : Bool := '0' ≤ c && c ≤ '9'

def digits : Reader (List Char) := modifyGet fun c => c.span isDigit

/-- The digits of a whole number, without a zero in front of others. -/
def wholeDigits (atEnd : Cause) : Reader (List Char) := do
  match ← peek with
  | none => fail atEnd
  | some '0' =>
    skip
    if (← peek).any isDigit then failNext .badNumber
    return ['0']
  | some c => if isDigit c then digits else failNext .badNumber

def fractionDigits (atEnd : Cause) : Reader (List Char) := do
  if (← peek) != some '.' then return []
  skip
  let ds ← digits
  if ds.isEmpty then failNext (if (← peek).isNone then atEnd else .badNumber)
  return ds

/-- The sign of an exponent and its digits. -/
def power? (atEnd : Cause) : Reader (Option (Bool × List Char)) := do
  unless (← peek).any fun c => c == 'e' || c == 'E' do return none
  skip
  let sign ← peek
  if sign == some '+' || sign == some '-' then skip
  match ← peek with
  | none => fail atEnd
  | some c =>
    unless isDigit c do failNext .badNumber
    return some (sign == some '-', ← digits)

/-- A number behind its sign. The text may end in it for the cause `atEnd`. -/
def numeralText (isNegative : Bool) (atEnd : Cause) : Reader NumeralText := do
  let whole ← wholeDigits atEnd
  let fraction ← fractionDigits atEnd
  return ⟨isNegative, whole, fraction, ← power? atEnd⟩

def number (isNegative : Bool) : Reader Number := do
  let t ← numeralText isNegative .endInValue
  match Number.ofText t with
  | .ok n => return n
  | .error none => fail .numberTooLarge
  | .error (some read) =>
    let unread := (t.power.map (·.2.length)).getD 0 - read
    failAt ((← get).pos - unread) .numberTooLarge

/-- A number that is not what was expected. -/
def unexpectedNumber (n : Number) (expected : String) : Cause :=
  match n with
  | .whole i => .unexpected (.integer i) expected
  | .double isNegative x => .unexpected (.decimal (Number.doubleText isNegative x)) expected

/-! ### Anything else -/

/-- Fails with what stands here in the place of what was expected. -/
def unexpected (expected : String) : Reader α := placed do
  match ← peek with
  | some 'n' =>
    skip
    letters ['u', 'l', 'l']
    failUnfit (.unexpected .null expected)
  | some 't' =>
    skip
    letters ['r', 'u', 'e']
    failUnfit (.unexpected (.bool true) expected)
  | some 'f' =>
    skip
    letters ['a', 'l', 's', 'e']
    failUnfit (.unexpected (.bool false) expected)
  | some '"' =>
    skip
    failUnfit (.unexpected (.text (← textBody)) expected)
  | some '[' => failUnfit (.unexpected .array expected)
  | some '\x7b' => failUnfit (.unexpected .object expected)
  | some '-' =>
    skip
    failUnfit (unexpectedNumber (← number true) expected)
  | c =>
    if c.any isDigit then failUnfit (unexpectedNumber (← number false) expected)
    else failNext .noValue

/-! ### Brackets -/

/-- Whether another item follows in an array. -/
def anotherItem (isFirst : Bool) : Reader Bool := do
  match ← peekBehindBlanks with
  | none => failNext .endInArray
  | some c =>
    if c = ']' then return false
    if isFirst then return true
    if c != ',' then failNext .noArrayEnd
    skip
    match ← peekBehindBlanks with
    | none => failNext .endInValue
    | some c => if c = ']' then failNext .trailingComma else return true

def closeArray : Reader Unit := do
  match ← peekBehindBlanks with
  | some ']' => skip
  | some ',' =>
    skip
    if (← peekBehindBlanks) == some ']' then failNext .trailingComma
    else failNext .trailingCharacters
  | some _ => failNext .trailingCharacters
  | none => failNext .endInArray

/-- Whether another key follows in an object. -/
def anotherKey (isFirst : Bool) : Reader Bool := do
  match ← peekBehindBlanks with
  | none => failNext .endInObject
  | some c =>
    if c = '\x7d' then return false
    if isFirst then
      if c = '"' then return true else failNext .keyNotText
    if c != ',' then failNext .noObjectEnd
    skip
    match ← peekBehindBlanks with
    | some '"' => return true
    | some '\x7d' => failNext .trailingComma
    | some _ => failNext .keyNotText
    | none => failNext .endInValue

def closeObject : Reader Unit := do
  match ← peekBehindBlanks with
  | some '\x7d' => skip
  | some ',' => failNext .trailingComma
  | some _ => failNext .trailingCharacters
  | none => failNext .endInObject

def colon : Reader Unit := do
  match ← peekBehindBlanks with
  | some ':' => skip
  | some _ => failNext .noColon
  | none => failNext .endInObject

/-! ### Values of one kind -/

def text : Reader String := do
  if (← valueStart) != '"' then unexpected "a string"
  skip
  textBody

def bool : Reader Bool := do
  match ← valueStart with
  | 't' =>
    skip
    letters ['r', 'u', 'e']
    return true
  | 'f' =>
    skip
    letters ['a', 'l', 's', 'e']
    return false
  | _ => unexpected "a boolean"

def size : Number → Reader Nat
  | .whole (.ofNat n) => return n
  | .whole i => failUnfit (.outOfRange i "usize")
  | .double isNegative x => failUnfit (unexpectedNumber (.double isNegative x) "usize")

/-- A whole number that is not negative. -/
def nat : Reader Nat := placed do
  let c ← valueStart
  if c = '-' then
    skip
    size (← number true)
  else if isDigit c then size (← number false)
  else unexpected "usize"

def null : Reader Unit := do
  if (← valueStart) != 'n' then unexpected "unit"
  skip
  letters ['u', 'l', 'l']

/-- A value or null. -/
def optional (r : Reader α) : Reader (Option α) := do
  if (← peekBehindBlanks) == some 'n' then
    null
    return none
  return some (← r)

/-- Reads another item if there is one; the last one read is in front. -/
def nextItem (r : Reader α) (items : List α) : Reader (List α × Bool) := do
  unless ← anotherItem items.isEmpty do return (items, false)
  return ((← r) :: items, true)

def list (r : Reader α) : Reader (List α) := placed do
  if (← valueStart) != '[' then unexpected "a sequence"
  skip
  return (← enclosed closeArray (loop [] (nextItem r))).reverse

/-- One of some names. -/
def choiceName (choices : List (String × α)) : Reader α := placed do
  if (← valueStart) != '"' then unexpected "variant identifier"
  skip
  let name ← textBody
  match choices.lookup name with
  | some a => return a
  | none => failUnfit (.unknownChoice name (choices.map (·.1)))

/-- One of some names, alone or as the key of a null. -/
def choice (choices : List (String × α)) : Reader α := do
  match ← peekBehindBlanks with
  | some '"' => choiceName choices
  | some '\x7b' =>
    skip
    let a ← choiceName choices
    colon
    null
    match ← peekBehindBlanks with
    | some '\x7d' =>
      skip
      return a
    | some _ => fail .noValue
    | none => fail .endInObject
  | some _ => failNext .noValue
  | none => failNext .endInValue

/-! ### Values that do not matter -/

def skipItems (item : Reader Unit) : Reader Unit := do
  loop () fun _ => do
    match ← peekBehindBlanks with
    | none => failNext .endInArray
    | some ']' => return ((), false)
    | some _ =>
      item
      match ← peekBehindBlanks with
      | none => failNext .endInArray
      | some ']' => return ((), false)
      | some ',' =>
        skip
        if (← valueStart) == ']' then failNext .noValue
        return ((), true)
      | some _ => failNext .noArrayEnd
  skip

def skipKey : Reader Unit := do
  match ← peekBehindBlanks with
  | some '"' =>
    skip
    skipTextBody
    colon
  | some _ => failNext .keyNotText
  | none => failNext .endInObject

def skipMembers (item : Reader Unit) : Reader Unit := do
  loop () fun _ => do
    match ← peekBehindBlanks with
    | none => failNext .endInObject
    | some '\x7d' => return ((), false)
    | some _ =>
      skipKey
      item
      match ← peekBehindBlanks with
      | none => failNext .endInObject
      | some '\x7d' => return ((), false)
      | some ',' =>
        skip
        if (← peekBehindBlanks) == some '\x7d' then failNext .keyNotText
        return ((), true)
      | some _ => failNext .noObjectEnd
  skip

/-- Skips a value that is nested less than `n` times. -/
def skipValueUpTo : Nat → Reader Unit
  | 0 => failNext .noValue
  | n + 1 => do
    match ← valueStart with
    | 'n' =>
      skip
      letters ['u', 'l', 'l']
    | 't' =>
      skip
      letters ['r', 'u', 'e']
    | 'f' =>
      skip
      letters ['a', 'l', 's', 'e']
    | '"' =>
      skip
      skipTextBody
    | '[' =>
      skip
      skipItems (skipValueUpTo n)
    | '\x7b' =>
      skip
      skipMembers (skipValueUpTo n)
    | '-' =>
      skip
      let _ ← numeralText true .badNumber
    | c =>
      if isDigit c then
        let _ ← numeralText false .badNumber
      else failNext .noValue

def skipValue : Reader Unit := do skipValueUpTo ((← get).rest.length + 1)

/-! ### Structures -/

/-- A field of a structure and how its value is read into one. -/
structure Field (α : Type) where
  name : String
  read : α → Reader α

/-- What has been read of an object: the structure so far, the names of its fields that were given,
and whether no member has been read. -/
structure Progress (α : Type) where
  value : α
  seen : List String := []
  isFirst : Bool := true

/-- Reads another member if there is one. -/
def nextMember (fields : List (Field α)) (p : Progress α) : Reader (Progress α × Bool) := do
  unless ← anotherKey p.isFirst do return (p, false)
  skip
  let key ← textBody
  match fields.find? (·.name == key) with
  | none =>
    colon
    skipValue
    return (⟨p.value, p.seen, false⟩, true)
  | some field =>
    if p.seen.contains key then failUnfit (.duplicateField key)
    colon
    return (⟨← field.read p.value, key :: p.seen, false⟩, true)

/-- The fields by their names, each at most once. -/
def members (fields : List (Field α)) (start : α) : Reader α := do
  return (← loop ⟨start, [], true⟩ (nextMember fields)).value

/-- The fields by their positions. -/
def positional (isFirst : Bool) : List (Field α) → α → Reader α
  | [], a => return a
  | field :: fields, a => do
    unless ← anotherItem isFirst do return a
    positional false fields (← field.read a)

/-- A structure. Fields that are not given keep the values that they have in `start`. -/
def record (expected : String) (fields : List (Field α)) (start : α) : Reader α := placed do
  match ← valueStart with
  | '\x7b' =>
    skip
    enclosed closeObject (members fields start)
  | '[' =>
    skip
    enclosed closeArray (positional true fields start)
  | _ => unexpected expected

/-- A value with nothing but blanks behind it. -/
def whole (r : Reader α) : Reader α := do
  let a ← r
  if (← peekBehindBlanks).isSome then failNext .trailingCharacters
  return a

/-- The value that a whole text is. -/
def run (r : Reader α) (text : String) : Except ReadError α :=
  match whole r ⟨text.toList, 0⟩ with
  | .ok a _ => .ok a
  | .error ⟨cause, place⟩ c =>
    let (line, column) := lineColumnFrom 1 0 (place.getD c.pos) text.toList
    .error ⟨cause, line, column⟩

end Reader

end Phrasebook.Json
