import Phrasebook.Script.Escape
import Phrasebook.Script.Token
import Phrasebook.Text.Alphabet
import Phrasebook.Text.Surrogates

/-!
# Words and literals

How far a word, a number, a string, a piece of a template or a regular expression reaches and
which token it is. The functions for literals are given the place behind the first character.
-/

namespace Phrasebook.Script

/-- A token and the place behind it. -/
structure Scanned where
  token : Token
  after : Cursor

namespace Scanned

def plain (kind : Kind) (after : Cursor) : Scanned := ⟨⟨kind, none, none⟩, after⟩

def fail (fault : Nat) (after : Cursor) : Scanned := ⟨⟨.invalid, none, some fault⟩, after⟩

end Scanned

def textOfUnits (units : List Nat) : Option String := (Text.ofUnits units).map String.ofList

/-! ### Words -/

/-- The characters of a word and whether one of them is escaped. An escape that is none stops the
word with its place. -/
structure Word where
  chars : List Char
  escaped : Bool := false
  fault : Option Nat := none
  after : Cursor

def Word.cons (c : Char) (w : Word) : Word := { w with chars := c :: w.chars }

/-- A word of which `started` says whether a character was read; `n` bounds its length. -/
def scanWord (started : Bool) : Nat → Cursor → Word
  | 0, c => ⟨[], false, none, c⟩
  | n + 1, c =>
    match c.rest with
    | '\\' :: 'u' :: _ =>
      match unicodeEscape? (c.advance 2) with
      | some (value, after) =>
        { (scanWord true n after).cons (Char.ofNat value) with escaped := true }
      | none => ⟨[], true, some c.pos, c.advance 1⟩
    | '\\' :: _ => ⟨[], true, some c.pos, c.advance 1⟩
    | x :: _ =>
      let belongs :=
        if started then Text.isIdentifierPart x || Text.isPictograph x
        else Text.isIdentifierStart x
      if belongs then (scanWord true n (c.advance 1)).cons x else ⟨[], false, none, c⟩
    | [] => ⟨[], false, none, c⟩

/-- A word as a token. A keyword must not be written with escapes. -/
def wordToken (start : Cursor) (n : Nat) : Scanned :=
  let w := scanWord false n start
  match w.fault with
  | some place => .fail place w.after
  | none =>
    let text := String.ofList w.chars
    let kind := Kind.ofWord text
    if !w.escaped then ⟨⟨kind, some text, none⟩, w.after⟩
    else if kind.isKeyword then .fail start.pos w.after
    else ⟨⟨.name, some text, none⟩, w.after⟩

/-! ### Numbers -/

def isDigitOrSeparator (c : Char) : Bool := Text.isAsciiDigit c || c == '_'

/-- What stands between two places, without separators. -/
def numberText (start after : Cursor) : String :=
  String.ofList <| (start.rest.take (start.rest.length - after.rest.length)).filter (· != '_')

/-- A number must not run into a word. -/
def numberToken (start after : Cursor) (kind : Kind) : Scanned :=
  let text := numberText start after
  match after.rest with
  | c :: _ =>
    if Text.isIdentifierStart c then .fail after.pos after else ⟨⟨kind, some text, none⟩, after⟩
  | [] => ⟨⟨kind, some text, none⟩, after⟩

/-- A number up to `after`, as a big integer when an `n` follows. -/
def wholeNumberToken (start after : Cursor) : Scanned :=
  match after.rest with
  | 'n' :: _ => ⟨⟨.bigInt, some (numberText start (after.advance 1)), none⟩, after.advance 1⟩
  | _ => numberToken start after .number

/-- The digits of a number with a base mark. -/
def radixToken (start : Cursor) (isDigit : Char → Bool) : Scanned :=
  let (digits, after) := (start.advance 2).span fun c => isDigit c || c == '_'
  if digits.all (· == '_') then .fail (start.pos + 2) after else wholeNumberToken start after

/-- The exponent of a number, if there is one; `none` when it has no digits. -/
def exponent? (c : Cursor) : Option Cursor :=
  match c.rest with
  | e :: rest =>
    if e == 'e' || e == 'E' then
      let signed :=
        match rest with
        | s :: _ => s == '+' || s == '-'
        | [] => false
      let (digits, after) := (c.advance (if signed then 2 else 1)).span isDigitOrSeparator
      if digits.any Text.isAsciiDigit then some after else none
    else some c
  | [] => some c

/-- The exponent behind a mantissa that ends at `mantissa`. -/
def exponentToken (start mantissa : Cursor) : Scanned :=
  match exponent? mantissa with
  | some after => numberToken start after .number
  | none => .fail start.pos mantissa

/-- A number that begins with a digit. -/
def scanNumber (start : Cursor) : Scanned :=
  match start.rest with
  | '0' :: mark :: _ =>
    if mark == 'x' || mark == 'X' then radixToken start fun c => (Text.hexValue? c).isSome
    else if mark == 'o' || mark == 'O' then radixToken start fun c => (Text.octalValue? c).isSome
    else if mark == 'b' || mark == 'B' then radixToken start fun c => c == '0' || c == '1'
    else decimal
  | _ => decimal
where
  decimal : Scanned :=
    let (digits, after) := start.span isDigitOrSeparator
    let isPadded := digits.head? == some '0' && 1 < digits.length
    if isPadded && digits.all (fun c => c < '8' || c == '_') then numberToken start after .number
    else
      match after.rest with
      | 'n' :: _ => if isPadded then .fail after.pos after else wholeNumberToken start after
      | '.' :: _ => exponentToken start ((after.advance 1).span isDigitOrSeparator).2
      | _ => exponentToken start after

/-- A number that begins with its point. -/
def scanFraction (start : Cursor) : Scanned :=
  exponentToken start ((start.advance 1).span isDigitOrSeparator).2

/-! ### Strings and templates -/

/-- A string behind its opening quote, with the units read so far, last one first. It ends at the
quote or, unfinished, at the end of the line. -/
def scanString (quote : Char) : Nat → List Nat → Cursor → Scanned
  | 0, units, c => ⟨⟨.string, textOfUnits units.reverse, none⟩, c⟩
  | n + 1, units, c =>
    match c.rest with
    | [] => ⟨⟨.string, textOfUnits units.reverse, none⟩, c⟩
    | x :: _ =>
      if x == quote then ⟨⟨.string, textOfUnits units.reverse, none⟩, c.advance 1⟩
      else if x == '\n' || x == '\r' then ⟨⟨.string, textOfUnits units.reverse, none⟩, c⟩
      else if x == '\\' then
        match escape? false (c.advance 1) with
        | some (some u, after) => scanString quote n (u :: units) after
        | some (none, after) => scanString quote n units after
        | none => .fail c.pos (c.advance 1)
      else scanString quote n (x.toNat :: units) (c.advance 1)

/-- A piece of a template behind its opening sign, which stands at `start`. `whole` is its kind
when the template ends with it and `head` when a substitution follows. An escape that is none
leaves the piece without a value and with a fault. -/
def templatePiece (start : Nat) (whole head : Kind) :
    Nat → List Nat → Option Nat → Cursor → Scanned
  | 0, _, _, c => .fail start c
  | n + 1, units, fault, c =>
    let value := if fault.isSome then none else textOfUnits units.reverse
    match c.rest with
    | [] => .fail start c
    | '\x60' :: _ => ⟨⟨whole, value, fault⟩, c.advance 1⟩
    | '$' :: '\x7b' :: _ => ⟨⟨head, value, fault⟩, c.advance 2⟩
    | '\r' :: '\n' :: _ => templatePiece start whole head n (10 :: units) fault (c.advance 2)
    | '\r' :: _ => templatePiece start whole head n (10 :: units) fault (c.advance 1)
    | '\\' :: _ =>
      match escape? true (c.advance 1) with
      | some (some u, after) => templatePiece start whole head n (u :: units) fault after
      | some (none, after) => templatePiece start whole head n units fault after
      | none => templatePiece start whole head n units (fault.or (some c.pos)) (c.advance 1)
    | x :: _ => templatePiece start whole head n (x.toNat :: units) fault (c.advance 1)

/-! ### Regular expressions -/

/-- The place behind the slash that ends a regular expression; `none` when the line ends first. -/
def regexEnd (pos : Nat) (inClass : Bool) : List Char → Option Cursor
  | [] => none
  | '\\' :: x :: rest => if isLineEnd x then none else regexEnd (pos + 1 + x.utf8Size) inClass rest
  | x :: rest =>
    if isLineEnd x then none
    else if x == '/' && !inClass then some ⟨rest, pos + 1⟩
    else regexEnd (pos + x.utf8Size) (x == '[' || (inClass && x != ']')) rest

/-- A regular expression with its flags, from its first slash on. -/
def scanRegex (start : Cursor) (n : Nat) : Scanned :=
  match regexEnd (start.pos + 1) false (start.advance 1).rest with
  | none => .fail start.pos (start.advance 1)
  | some close => .plain .regex (scanWord true n close).after

end Phrasebook.Script
