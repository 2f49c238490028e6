/-!
# Interned texts

A pool keeps one copy of every text it was ever given. A text is known by its place in the pool,
so two interned texts share a place exactly when they are equal.
-/

namespace Phrasebook

structure Pool where
  texts : List String := []
deriving Repr

namespace Pool

structure Stats where
  uniqueTexts : Nat
  totalChars : Nat
deriving DecidableEq, Repr

/-- The place of a text, which is added at the end when it is new. -/
def intern (p : Pool) (text : String) : Nat × Pool :=
  match p.texts.idxOf? text with
  | some i => (i, p)
  | none => (p.texts.length, ⟨p.texts ++ [text]⟩)

def stats (p : Pool) : Stats :=
  ⟨p.texts.length, p.texts.foldr (·.toList.length + ·) 0⟩

end Pool

end Phrasebook
