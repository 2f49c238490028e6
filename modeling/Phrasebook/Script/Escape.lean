import Phrasebook.Cursor
import Phrasebook.Script.LineEnd
import Phrasebook.Text.Hex

/-!
# Escapes

What a backslash in a string, a template or a name stands for. Characters are given by their
numbers, since an escape can also name a surrogate.
-/

namespace Phrasebook.Script

/-- The number that exactly `n` hexadecimal digits write. -/
def hexDigits? (c : Cursor) (n : Nat) : Option (Nat × Cursor) := do
  let value ← Text.hexNumber? (c.rest.take n)
  if n ≤ c.rest.length then some (value, c.advance n) else none

/-- What follows the `u` of an escape: four hexadecimal digits, or any number of them between
braces. -/
def unicodeEscape? (c : Cursor) : Option (Nat × Cursor) :=
  match c.rest with
  | '\x7b' :: _ => do
    let (cs, after) := (c.advance 1).span fun x => (Text.hexValue? x).isSome
    let value ← Text.hexNumber? cs
    match after.rest with
    | '\x7d' :: _ =>
      if cs ≠ [] ∧ value ≤ 0x10ffff then some (value, after.advance 1) else none
    | _ => none
  | _ => hexDigits? c 4

/-- At most three octal digits with a value below 256, behind the first one, whose value is
`first`. -/
def octalEscape (first : Nat) (c : Cursor) : Nat × Cursor :=
  match c.rest with
  | a :: rest =>
    match Text.octalValue? a with
    | none => (first, c)
    | some x =>
      let two := 8 * first + x
      match rest with
      | b :: _ =>
        match Text.octalValue? b with
        | some y => if 8 * two + y < 256 then (8 * two + y, c.advance 2) else (two, c.advance 1)
        | none => (two, c.advance 1)
      | [] => (two, c.advance 1)
  | [] => (first, c)

def simpleEscape? : Char → Option Nat
  | 'n' => some 0x0a
  | 'r' => some 0x0d
  | 't' => some 0x09
  | 'b' => some 0x08
  | 'v' => some 0x0b
  | 'f' => some 0x0c
  | _ => none

/-- What an escape stands for, from the place behind its backslash on: a character, or nothing
for a line continued on the next one. `none` when it is no escape; octal ones are none in a
template. -/
def escape? (inTemplate : Bool) (c : Cursor) : Option (Option Nat × Cursor) :=
  match c.rest with
  | [] => none
  | '\r' :: '\n' :: _ => some (none, c.advance 2)
  | 'x' :: _ => (hexDigits? (c.advance 1) 2).map fun (n, after) => (some n, after)
  | 'u' :: _ => (unicodeEscape? (c.advance 1)).map fun (n, after) => (some n, after)
  | x :: rest =>
    if isLineEnd x then some (none, c.advance 1)
    else
      match Text.octalValue? x with
      | some d =>
        if d = 0 ∧ (rest.head?.bind Text.octalValue?).isNone then some (some 0, c.advance 1)
        else if inTemplate then none
        else
          let (n, after) := octalEscape d (c.advance 1)
          some (some n, after)
      | none => some ((simpleEscape? x).getD x.toNat, c.advance 1)

end Phrasebook.Script
