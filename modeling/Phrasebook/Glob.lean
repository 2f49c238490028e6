/-!
# Patterns for paths

A question mark stands for any character, a star for any text, slashes included, and a class in
brackets for one of its characters or, behind an exclamation mark, for any other one. Two stars
that are all between two slashes stand for any number of whole components.
-/

namespace Phrasebook

structure CharRange where
  first : Char
  last : Char
deriving DecidableEq, Repr

namespace Glob

inductive Token where
  | char (c : Char)
  | anyChar
  | anyText
  /-- Any number of components, the last slash included. -/
  | anyComponents
  | oneOf (ranges : List CharRange)
  | noneOf (ranges : List CharRange)
deriving DecidableEq, Repr

def Token.char? : Token → Option Char
  | char c => some c
  | _ => none

inductive Cause where
  | tooManyStars
  | notAlone
  | badRange
deriving DecidableEq, Repr

def Cause.message : Cause → String
  | tooManyStars => "wildcards are either regular `*` or recursive `**`"
  | notAlone => "recursive wildcards must form a single path component"
  | badRange => "invalid range pattern"

end Glob

structure GlobError where
  position : Nat
  cause : Glob.Cause
deriving DecidableEq, Repr

def GlobError.message (e : GlobError) : String :=
  "Pattern syntax error near position " ++ toString e.position ++ ": " ++ e.cause.message

structure Glob where
  tokens : List Glob.Token
deriving DecidableEq, Repr

namespace Glob

/-! ### Reading -/

def classRanges : List Char → List CharRange
  | a :: '-' :: b :: rest => ⟨a, b⟩ :: classRanges rest
  | a :: rest => ⟨a, a⟩ :: classRanges rest
  | [] => []

/-- The characters up to the first closing bracket behind the first character, and what follows
it. -/
def classBody? : List Char → Option (List Char × List Char)
  | [] => none
  | c :: cs =>
    match cs.dropWhile (· ≠ ']') with
    | _ :: rest => some (c :: cs.takeWhile (· ≠ ']'), rest)
    | [] => none

/-- A class behind its opening bracket. -/
def class? : List Char → Option (Token × List Char)
  | '!' :: cs => (classBody? cs).map fun (body, rest) => (.noneOf (classRanges body), rest)
  | cs => (classBody? cs).map fun (body, rest) => (.oneOf (classRanges body), rest)

/-- Stars that follow each other are one token. -/
def pushComponents (tokens : List Token) : List Token :=
  match tokens with
  | .anyComponents :: _ :: _ => tokens
  | _ => .anyComponents :: tokens

/-- Reads up to `n` tokens at `position` on top of those read before, the latest first. -/
def tokensFrom : Nat → Nat → Option Char → List Token → List Char →
    Except GlobError (List Token)
  | 0, _, _, tokens, _ => .ok tokens.reverse
  | n + 1, position, previous, tokens, cs =>
    match cs with
    | [] => .ok tokens.reverse
    | '?' :: rest => tokensFrom n (position + 1) (some '?') (.anyChar :: tokens) rest
    | '*' :: '*' :: '*' :: _ => .error ⟨position + 2, .tooManyStars⟩
    | '*' :: '*' :: rest =>
      if previous.any (· ≠ '/') then .error ⟨position - 1, .notAlone⟩
      else
        match rest with
        | [] => .ok (pushComponents tokens).reverse
        | '/' :: rest =>
          tokensFrom n (position + 3) (some '/') (pushComponents tokens) rest
        | _ => .error ⟨position + 2, .notAlone⟩
    | '*' :: rest => tokensFrom n (position + 1) (some '*') (.anyText :: tokens) rest
    | '[' :: rest =>
      match class? rest with
      | some (token, after) =>
        let length := cs.length - after.length
        tokensFrom n (position + length) (some ']') (token :: tokens) after
      | none => .error ⟨position, .badRange⟩
    | c :: rest => tokensFrom n (position + 1) (some c) (.char c :: tokens) rest

def parse (pattern : String) : Except GlobError Glob :=
  let cs := pattern.toList
  (tokensFrom cs.length 0 none [] cs).map Glob.mk

/-! ### Matching -/

def CharRange.has (c : Char) (r : CharRange) : Bool := decide (r.first ≤ c) && decide (c ≤ r.last)

/-- Whether one character fits a token that stands for one. -/
def Token.fits (c : Char) : Token → Bool
  | char x => x == c
  | anyChar => true
  | oneOf ranges => ranges.any (CharRange.has c)
  | noneOf ranges => !ranges.any (CharRange.has c)
  | _ => false

/-- Whether `p` holds for an end of a text. -/
def anyEnd (p : List Char → Bool) : List Char → Bool
  | [] => p []
  | c :: cs => p (c :: cs) || anyEnd p cs

/-- Whether `p` holds for what follows a slash. -/
def anyAfterSlash (p : List Char → Bool) : List Char → Bool
  | [] => false
  | c :: cs => (c == '/' && p cs) || anyAfterSlash p cs

def matchesFrom : List Token → List Char → Bool
  | [], cs => cs.isEmpty
  | .anyText :: ts, cs => anyEnd (matchesFrom ts) cs
  | .anyComponents :: ts, cs =>
    matchesFrom ts cs || anyAfterSlash (matchesFrom ts) cs || matchesFrom ts []
  | t :: ts, cs =>
    match cs with
    | [] => false
    | c :: cs => t.fits c && matchesFrom ts cs

def accepts (g : Glob) (s : String) : Bool := matchesFrom g.tokens s.toList

end Glob

end Phrasebook
