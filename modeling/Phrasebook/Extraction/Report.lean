import Phrasebook.Extraction

/-!
# Reports on extractions

A summary is told in lines: how much was found and where it was written, and apart from that what
has failed.
-/

namespace Phrasebook

namespace Report

def successMark : String := "✓"

def failureMark : String := "✘"

/-- A number with the word for one thing or for several. -/
def count (n : Nat) (one many : String) : String :=
  toString n ++ " " ++ if n = 1 then one else many

def headline (s : Summary) : String :=
  "Extracted " ++ count s.messages "message" "messages" ++ " from " ++ toString s.transformed
    ++ " of " ++ count s.scanned "source file" "source files"

def firstLine (s : Summary) : String :=
  match s.failures with
  | [] => successMark ++ " " ++ headline s
  | failures =>
    failureMark ++ " " ++ headline s ++ " (" ++ count failures.length "file" "files" ++ " failed)"

def exemptedLine (s : Summary) : List String :=
  if s.exempted = 0 then []
  else ["  " ++ count s.exempted "function" "functions" ++ " marked @notranslate"]

def statsLine (s : Summary) : String :=
  "  stats: " ++ toString s.callSites ++ " call sites, " ++ toString s.pool.uniqueTexts
    ++ " unique strings (" ++ toString s.pool.totalChars ++ " chars) interned"

def lines (s : Summary) (verbose : Bool) : List String :=
  firstLine s :: exemptedLine s ++ s.written.map ("  wrote " ++ ·.text)
    ++ if verbose then [statsLine s] else []

def failureLines (s : Summary) : List String :=
  s.failures.flatMap fun f => ["error: " ++ f.file, "  --> " ++ f.error.message]

end Report

end Phrasebook
