import Phrasebook.Doc.Comment
import Phrasebook.Script.Comment

/-!
# Which documentation belongs to a function

Documentation is looked up twice: among the comments that lead certain tokens, and among all
comments that are found in a stretch of text when it is read from left to right. The first way
counts for the documentation; a mark that exempts the function counts in either.
-/

namespace Phrasebook

structure ResolvedDoc where
  doc : Option DocComment
  isExempt : Bool
deriving DecidableEq

namespace DocLookup

open Script (Comment blockCommentFrom)

/-- The last comment that is documentation. -/
def lastDoc (comments : List Comment) : Option DocComment :=
  (comments.reverse.filter (·.isBlock)).findSome? fun c => DocComment.parse c.text

/-- The comments in a text with the signs that begin and end them, reading at most `n`
characters or comments. -/
def rawCommentsUpTo : Nat → List Char → List (List Char)
  | 0, _ => []
  | _ + 1, [] => []
  | n + 1, '/' :: '*' :: rest =>
    match blockCommentFrom 0 rest with
    | some (text, after) =>
      (['/', '*'] ++ text ++ ['*', '/']) :: rawCommentsUpTo n after.rest
    | none => rawCommentsUpTo n ('*' :: rest)
  | n + 1, '/' :: '/' :: rest =>
    ('/' :: '/' :: rest.takeWhile (· != '\n')) :: rawCommentsUpTo n (rest.dropWhile (· != '\n'))
  | n + 1, _ :: rest => rawCommentsUpTo n rest

def rawComments (cs : List Char) : List (List Char) := rawCommentsUpTo cs.length cs

/-- Equal up to small and capital letters; `lower` is a small ASCII letter. The long s is a small
form of the letter s. -/
def sameLetter (lower c : Char) : Bool :=
  c.toLower == lower || (lower == 's' && c.toNat == 0x17f)

/-- `word`, in small or capital letters, stands in front of `cs` and ends there. -/
def startsWithWord (word : List Char) (cs : List Char) : Bool :=
  match word, cs with
  | [], [] => true
  | [], c :: _ => !Text.isWordChar c
  | w :: ws, c :: rest => sameLetter w c && startsWithWord ws rest
  | _ :: _, [] => false

/-- The mark that exempts stands somewhere in the text. -/
def hasMark : List Char → Bool
  | [] => false
  | c :: cs => (c == '@' && startsWithWord DocTag.exempting.toList cs) || hasMark cs

/-- The documentation in a comment of which the beginning signs are still there: that of the first
block comment in it, plain ones included. -/
def rawDoc : List Char → Option DocComment
  | [] => none
  | '/' :: '*' :: rest =>
    (blockCommentFrom 0 rest).bind fun (text, _) => DocComment.parse ('*' :: text)
  | _ :: rest => rawDoc rest

/-- What belongs to a function, by the comments that lead each of its anchors and the text in
front of it. -/
def resolve (leading : List (List Comment)) (raw : List Char) : ResolvedDoc :=
  let docs := leading.filterMap lastDoc
  let found := rawComments raw
  { doc := docs.head?.or (found.reverse.findSome? rawDoc)
    isExempt := docs.any (·.exempts) || found.any hasMark }

end DocLookup

end Phrasebook
