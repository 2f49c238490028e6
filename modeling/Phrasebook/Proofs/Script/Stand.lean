import Phrasebook.Proofs.Script.Spelling
import Phrasebook.Proofs.Script.Word

/-!
# Reading on in known characters

`Lexer.Stands l cs` says that the lexer `l` has the first token of the characters `cs` in hand,
which are all that is left of its text. A literal and a sign are then read as what they are, and
behind a gap the lexer stands at the next token.
-/

namespace Phrasebook.Script

open Text (byteLength length_le_byteLength)

/-- Ends of an expression with a known text: what may stand behind it and its gap. -/
def endSigns : List (Char × Kind) :=
  [(')', .parenClose), (',', .comma), (';', .semicolon), ('+', .plus)]

/-- The characters begin with such a sign, and a `+` is no part of a longer one. -/
def BeginsEnd : List Char → Prop
  | x :: cs => ∃ kind, (x, kind) ∈ endSigns ∧
      (x = '+' → ∀ y ∈ cs.head?, y ≠ '+' ∧ y ≠ '=')
  | [] => False

theorem scanToken_sign {x : Char} {kind : Kind} {rest : List Char} (hx : (x, kind) ∈ endSigns)
    (hplus : x = '+' → ∀ y ∈ rest.head?, y ≠ '+' ∧ y ≠ '=') {n pos : Nat} :
    scanToken n ⟨x :: rest, pos⟩ = .plain kind ⟨rest, pos + 1⟩ := by
  simp only [endSigns, List.mem_cons, Prod.mk.injEq, List.not_mem_nil, or_false] at hx
  rcases hx with ⟨rfl, rfl⟩ | ⟨rfl, rfl⟩ | ⟨rfl, rfl⟩ | ⟨rfl, rfl⟩
  · rfl
  · rfl
  · rfl
  · change scanSign ⟨'+' :: rest, pos⟩ '+' = _
    cases rest with
    | nil => rfl
    | cons y ys =>
      obtain ⟨hplus, hassign⟩ := hplus rfl y rfl
      simp [scanSign, signs, Cursor.startsWith, Ne.symm hplus, Ne.symm hassign]
      rfl

namespace Lexer

/-- The lexer has the first token of the characters `cs` in hand, with which its text ends. -/
structure Stands (l : Lexer) (cs : List Char) : Prop where
  rest : l.here.rest = cs
  token : ∃ n, cs.length < n ∧ scanToken n l.here = ⟨l.token, l.after⟩
  size : l.here.pos + byteLength cs = l.size

variable {l : Lexer} {cs rest : List Char}

namespace Stands

theorem here_eq (h : l.Stands cs) : l.here = ⟨cs, l.here.pos⟩ := by
  rw [← h.rest]

/-- More tokens may be left than there are characters. -/
theorem length_lt_remaining (h : l.Stands cs) : cs.length < l.remaining := by
  have hsize := h.size
  have hlength := length_le_byteLength cs
  unfold remaining bound
  omega

/-- A literal is in hand when its characters are. -/
theorem literal {follow : Option Char} {kind : Kind} {text : String} (h : l.Stands (cs ++ rest))
    (hcs : LiteralText follow cs kind text) (hrest : ∀ x ∈ follow, rest.head? = some x) :
    l.token = ⟨kind, some text, none⟩ ∧ l.after = ⟨rest, l.here.pos + byteLength cs⟩ := by
  obtain ⟨n, hn, htoken⟩ := h.token
  rw [h.here_eq, hcs.scanToken_eq (by simp at hn; omega) hrest] at htoken
  obtain ⟨h, h'⟩ := Scanned.mk.inj htoken
  exact ⟨h.symm, h'.symm⟩

/-- A sign is in hand that is read as such whatever stands behind it. -/
theorem plain {x : Char} (kind : Kind) (h : l.Stands (x :: rest))
    (hx : ∀ n pos, scanToken n ⟨x :: rest, pos⟩ = .plain kind ⟨rest, pos + 1⟩) :
    l.kind = kind ∧ l.after = ⟨rest, l.here.pos + 1⟩ := by
  obtain ⟨n, -, htoken⟩ := h.token
  rw [h.here_eq, hx] at htoken
  obtain ⟨h, h'⟩ := Scanned.mk.inj htoken
  exact ⟨by rw [Lexer.kind, ← h], h'.symm⟩

theorem paren (h : l.Stands ('(' :: rest)) :
    l.kind = .parenOpen ∧ l.after = ⟨rest, l.here.pos + 1⟩ :=
  h.plain .parenOpen fun _ _ => rfl

theorem sign {x : Char} (kind : Kind) (h : l.Stands (x :: rest)) (hx : (x, kind) ∈ endSigns)
    (hplus : x = '+' → ∀ y ∈ rest.head?, y ≠ '+' ∧ y ≠ '=') :
    l.kind = kind ∧ l.after = ⟨rest, l.here.pos + 1⟩ :=
  h.plain kind fun _ _ => scanToken_sign hx hplus

theorem word (h : l.Stands (cs ++ rest)) (hcs : IsWord cs) (hrest : StopsWord rest) :
    l.token = ⟨Kind.ofWord (String.ofList cs), some (String.ofList cs), none⟩ ∧
      l.after = ⟨rest, l.here.pos + byteLength cs⟩ := by
  obtain ⟨n, hn, htoken⟩ := h.token
  rw [h.here_eq, scanToken_word hcs hrest (by rw [List.length_append] at hn; omega)] at htoken
  obtain ⟨h, h'⟩ := Scanned.mk.inj htoken
  exact ⟨h.symm, h'.symm⟩

/-- Behind a token and a gap the next token is in hand. -/
theorem next {gap : List Char} {x : Char} (h : l.Stands (cs ++ (gap ++ x :: rest)))
    (hafter : l.after = ⟨gap ++ x :: rest, l.here.pos + byteLength cs⟩) (hgap : GapText false gap)
    (hx : beginsGap x = false) :
    l.next.Stands (x :: rest) ∧ l.next.here.pos = l.here.pos + byteLength (cs ++ gap) := by
  have hsize := h.size
  simp only [Text.byteLength_append] at hsize
  have hlength := length_le_byteLength gap
  have hlength' := length_le_byteLength (x :: rest)
  -- the gap is skipped to its end, with steps enough for all its characters
  have hhere : l.next.here = ⟨x :: rest, l.here.pos + byteLength (cs ++ gap)⟩ := by
    rw [Text.byteLength_append, ← Nat.add_assoc]
    refine Gap.run_append (g := ⟨l.after, false, [], none⟩) hgap hx rfl hafter ?_
    rw [hafter, bound]
    dsimp only
    omega
  refine ⟨⟨by rw [hhere], ⟨_, ?_, rfl⟩, ?_⟩, by rw [hhere]⟩
  · change (x :: rest).length < bound l.size l.next.here
    rw [hhere, bound, Text.byteLength_append]
    dsimp only
    omega
  · change l.next.here.pos + byteLength (x :: rest) = l.size
    rw [hhere, Text.byteLength_append]
    dsimp only
    omega

/-- As `next`, behind a sign. -/
theorem nextSign {x y : Char} {gap : List Char} (h : l.Stands (x :: (gap ++ y :: rest)))
    (hsize : x.utf8Size = 1) (hafter : l.after = ⟨gap ++ y :: rest, l.here.pos + 1⟩)
    (hgap : GapText false gap) (hy : beginsGap y = false) : l.next.Stands (y :: rest) := by
  have hstands : l.Stands ([x] ++ (gap ++ y :: rest)) := h
  refine (hstands.next ?_ hgap hy).1
  rw [hafter, byteLength, byteLength, hsize]

/-- A word is in hand, and the token behind it and a gap is the next one. -/
theorem wordNext {gap : List Char} {x : Char} (h : l.Stands (cs ++ (gap ++ x :: rest)))
    (hcs : IsWord cs) (hstops : StopsWord (gap ++ x :: rest)) (hgap : GapText false gap)
    (hx : beginsGap x = false) :
    l.token = ⟨Kind.ofWord (String.ofList cs), some (String.ofList cs), none⟩ ∧
      l.next.Stands (x :: rest) := by
  obtain ⟨htoken, hafter⟩ := h.word hcs hstops
  exact ⟨htoken, (h.next hafter hgap hx).1⟩

/-- A literal is in hand, and a sign at once behind it is the next token. -/
theorem literalNext {kind : Kind} {text : String} {x : Char} (h : l.Stands (cs ++ x :: rest))
    (hcs : LiteralText none cs kind text) (hx : beginsGap x = false) :
    l.token = ⟨kind, some text, none⟩ ∧ l.next.Stands (x :: rest) := by
  obtain ⟨htoken, hafter⟩ := h.literal hcs (by simp)
  exact ⟨htoken, (@next l cs rest [] x h hafter .nil hx).1⟩

/-- As `nextSign`, without a gap. -/
theorem nextAtOnce {x y : Char} (h : l.Stands (x :: y :: rest)) (hsize : x.utf8Size = 1)
    (hafter : l.after = ⟨y :: rest, l.here.pos + 1⟩) (hy : beginsGap y = false) :
    l.next.Stands (y :: rest) :=
  @nextSign l rest x y [] h hsize hafter .nil hy

/-- As `nextSign`, behind one blank. -/
theorem nextBehindBlank {x y : Char} (h : l.Stands (x :: ' ' :: y :: rest))
    (hsize : x.utf8Size = 1) (hafter : l.after = ⟨' ' :: y :: rest, l.here.pos + 1⟩)
    (hy : beginsGap y = false) : l.next.Stands (y :: rest) :=
  @nextSign l rest x y [' '] h hsize hafter (.blank (by decide) .nil) hy

end Stands

/-- Behind the last token. -/
theorem kind_next_of_nil (h : l.after.rest = []) : l.next.kind = .eof := by
  obtain ⟨token, pos, here, ⟨rest, place⟩, lines, previousEnd, size, comments⟩ := l
  obtain rfl : rest = [] := h
  rfl

end Lexer

end Phrasebook.Script
