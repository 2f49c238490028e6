import Phrasebook.Script.Comment
import Phrasebook.Script.Literal

/-!
# The lexer

`scanToken` reads the token at a place. `Lexer` is the state of reading: the current token, where it
stands, and the comments that lead the tokens read so far. A `>` is always a token of its own and
a `/` is never taken for a regular expression; where the grammar wants something else, `reread`
puts another token in the place of the current one.
-/

namespace Phrasebook.Script

/-- The signs that begin with a character, longer ones first. -/
def signs : Char → List (String × Kind)
  | '\x7b' => [("\x7b", .braceOpen)]
  | '\x7d' => [("\x7d", .braceClose)]
  | '(' => [("(", .parenOpen)]
  | ')' => [(")", .parenClose)]
  | '[' => [("[", .bracketOpen)]
  | ']' => [("]", .bracketClose)]
  | ';' => [(";", .semicolon)]
  | ',' => [(",", .comma)]
  | ':' => [(":", .colon)]
  | '@' => [("@", .at)]
  | '#' => [("#", .hash)]
  | '~' => [("~", .bitNot)]
  | '.' => [("...", .ellipsis), (".", .dot)]
  | '?' => [("??=", .assignWith), ("??", .coalesce), ("?.", .optionalDot), ("?", .question)]
  | '<' => [("<<=", .assignWith), ("<<", .shiftLeft), ("<=", .lessEqual), ("<", .less)]
  | '>' => [(">", .greater)]
  | '=' => [("===", .same), ("==", .equal), ("=>", .arrow), ("=", .assign)]
  | '!' => [("!==", .notSame), ("!=", .notEqual), ("!", .not)]
  | '+' => [("++", .increment), ("+=", .assignWith), ("+", .plus)]
  | '-' => [("--", .decrement), ("-=", .assignWith), ("-", .minus)]
  | '*' => [("**=", .assignWith), ("**", .power), ("*=", .assignWith), ("*", .star)]
  | '/' => [("/=", .assignWith), ("/", .slash)]
  | '%' => [("%=", .assignWith), ("%", .percent)]
  | '&' => [("&&=", .assignWith), ("&&", .and), ("&=", .assignWith), ("&", .bitAnd)]
  | '|' => [("||=", .assignWith), ("||", .or), ("|=", .assignWith), ("|", .bitOr)]
  | '^' => [("^=", .assignWith), ("^", .bitXor)]
  | _ => []

def digitAt (c : Cursor) (i : Nat) : Bool := (c.rest.drop i).head?.any Text.isAsciiDigit

/-- The sign at a place. A question mark, a point and a digit are no optional chain. -/
def scanSign (c : Cursor) (x : Char) : Scanned :=
  match (signs x).find? fun (s, _) => c.startsWith s with
  | some (_, .optionalDot) =>
    if digitAt c 2 then .plain .question (c.advance 1) else .plain .optionalDot (c.advance 2)
  | some (s, kind) => .plain kind (c.advance s.toList.length)
  | none => .fail c.pos (c.advance 1)

/-- The token at a place where no blank and no comment stands; `n` bounds its length. -/
def scanToken (n : Nat) (c : Cursor) : Scanned :=
  match c.rest with
  | [] => .plain .eof c
  | x :: _ =>
    if x == '"' || x == '\'' then scanString x n [] (c.advance 1)
    else if x == '\x60' then
      templatePiece c.pos .templateWhole .templateHead n [] none (c.advance 1)
    else if Text.isAsciiDigit x then scanNumber c
    else if x == '.' && digitAt c 1 then scanFraction c
    else if x == '\\' || Text.isIdentifierStart x then wordToken c n
    else scanSign c x

structure Lexer where
  token : Token
  /-- Where the current token begins; a comment that does not start with a slash counts as a part
  of the token behind it. -/
  pos : Nat
  /-- The place of the first character of the current token. -/
  here : Cursor
  /-- The place behind it. -/
  after : Cursor
  /-- Whether a line ends between the token before and the current one. -/
  lineBreak : Bool
  /-- The end of the token before. -/
  previousEnd : Nat := 0
  /-- The number of bytes of the text. -/
  size : Nat
  /-- The comments that lead tokens, by the places of the tokens, latest first. -/
  comments : List (Nat × List Comment) := []

namespace Lexer

/-- A bound for the characters from the place `c` on. -/
def bound (size : Nat) (c : Cursor) : Nat := size - c.pos + 1

def attach (place : Nat) (leading : List Comment) (comments : List (Nat × List Comment)) :
    List (Nat × List Comment) :=
  if leading.isEmpty then comments else (place, leading) :: comments

/-- Reads the first token. Comments in a text without tokens lead its beginning. -/
def start (text : List Char) : Lexer :=
  let size := Text.byteLength text
  let first : Cursor := ⟨text, 0⟩
  let first := if first.startsWith "#!" then (first.span (!isLineEnd ·)).2 else first
  let gap := Gap.run none (bound size first) { after := first, lineBreak := true }
  let scanned := scanToken (bound size gap.after) gap.after
  let pos := gap.tokenStart.getD gap.after.pos
  let place := if scanned.token.kind == .eof then 0 else pos
  { token := scanned.token, pos, here := gap.after, after := scanned.after
    lineBreak := gap.lineBreak, size, comments := attach place gap.leading [] }

/-- Reads the next token. Comments behind the last token lead nothing. -/
def next (l : Lexer) : Lexer :=
  let gap :=
    Gap.run (some l.token.kind) (bound l.size l.after) { after := l.after, lineBreak := false }
  let scanned := scanToken (bound l.size gap.after) gap.after
  let pos := gap.tokenStart.getD gap.after.pos
  let comments :=
    if scanned.token.kind == .eof then l.comments else attach pos gap.leading l.comments
  { l with
    token := scanned.token, pos, here := gap.after, after := scanned.after
    lineBreak := gap.lineBreak, previousEnd := l.after.pos, comments }

def kind (l : Lexer) : Kind := l.token.kind

/-- Where the current token ends. -/
def endPos (l : Lexer) : Nat := l.after.pos

/-- More than the number of tokens that are left. -/
def remaining (l : Lexer) : Nat := bound l.size l.here

/-- Puts another token in the place of the current one. -/
def reread (l : Lexer) (s : Scanned) : Lexer := { l with token := s.token, after := s.after }

/-- Takes the slash at which the lexer stands for a regular expression. -/
def rereadRegex (l : Lexer) : Lexer := l.reread (scanRegex l.here l.remaining)

/-- Takes the closing brace at which the lexer stands for the end of a substitution. -/
def rereadTemplate (l : Lexer) : Lexer :=
  l.reread <|
    templatePiece l.here.pos .templateTail .templateMiddle l.remaining [] none (l.here.advance 1)

/-- Takes only the first character of a sign, which is a sign too. -/
def rereadFirst (l : Lexer) (kind : Kind) : Lexer := l.reread (.plain kind (l.here.advance 1))

/-- The operators that begin with a `>`, longer ones first. -/
def greaterSigns : List (String × Kind) := [
  (">>>=", .assignWith), (">>>", .shiftRightZero), (">>=", .assignWith), (">>", .shiftRight),
  (">=", .greaterEqual)]

/-- Takes a `>` together with what follows it for one operator. -/
def rereadGreater (l : Lexer) : Lexer :=
  match greaterSigns.find? fun (s, _) => l.here.startsWith s with
  | some (s, kind) => l.reread (.plain kind (l.here.advance s.toList.length))
  | none => l

/-- Takes the current word together with hyphens and further words for one name. -/
def rereadHyphenated (l : Lexer) : Lexer :=
  let (cs, after) := l.here.span fun c => Text.isIdentifierPart c || c == '-'
  l.reread ⟨⟨.name, some (String.ofList cs), none⟩, after⟩

/-- Takes the current quote up to the next one of its kind for a string without escapes. -/
def rereadQuoted (l : Lexer) : Lexer :=
  match l.here.rest with
  | quote :: _ =>
    let (cs, after) := (l.here.advance 1).span (· != quote)
    if after.rest.isEmpty then l.reread (.fail l.here.pos after)
    else l.reread ⟨⟨.string, some (String.ofList cs), none⟩, after.advance 1⟩
  | [] => l

/-- Reads the text between two tags, blanks and comment signs included, or the sign that ends
it. One of them has to follow. -/
def nextText (l : Lexer) : Lexer :=
  let here := l.after
  let (cs, after) := here.span fun c => c != '\x7b' && c != '<'
  let scanned : Scanned :=
    if after.rest.isEmpty then .fail here.pos after
    else if !cs.isEmpty then ⟨⟨.jsxText, some (String.ofList cs), none⟩, after⟩
    else
      match here.rest with
      | '\x7b' :: _ => .plain .braceOpen (here.advance 1)
      | _ => .plain .less (here.advance 1)
  { l with
    token := scanned.token, pos := here.pos, here, after := scanned.after, lineBreak := false
    previousEnd := l.after.pos }

end Lexer

end Phrasebook.Script
