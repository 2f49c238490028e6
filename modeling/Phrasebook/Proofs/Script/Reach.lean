import Phrasebook.Script.Lexer

/-!
# How far the lexer gets

Whatever is scanned, the place behind it is reached from the place in front of it by passing
characters of the text (`Reaches`), each with its bytes. No scan goes back or leaves the text.
-/

namespace Phrasebook

open Text (byteLength)

namespace Cursor

/-- The characters `cs` stand between the place `c` and the place `d` behind them. -/
def Passes (c : Cursor) (cs : List Char) (d : Cursor) : Prop :=
  c.rest = cs ++ d.rest ∧ d.pos = c.pos + byteLength cs

/-- `d` is the place `c` or one behind it in the same text. -/
def Reaches (c d : Cursor) : Prop := ∃ cs, c.Passes cs d

section

variable {c d e : Cursor} {cs ds : List Char}

theorem Passes.refl (c : Cursor) : c.Passes [] c := ⟨rfl, rfl⟩

theorem Passes.trans (h : c.Passes cs d) (h' : d.Passes ds e) : c.Passes (cs ++ ds) e := by
  obtain ⟨hrest, hpos⟩ := h
  obtain ⟨hrest', hpos'⟩ := h'
  refine ⟨?_, ?_⟩
  · rw [hrest, hrest', List.append_assoc]
  · rw [hpos', hpos, Text.byteLength_append, Nat.add_assoc]

theorem Reaches.refl (c : Cursor) : c.Reaches c := ⟨[], .refl c⟩

theorem Reaches.trans (h : c.Reaches d) (h' : d.Reaches e) : c.Reaches e := by
  obtain ⟨cs, hcs⟩ := h
  obtain ⟨ds, hds⟩ := h'
  exact ⟨cs ++ ds, hcs.trans hds⟩

theorem Reaches.pos_le (h : c.Reaches d) : c.pos ≤ d.pos := by
  obtain ⟨cs, -, hpos⟩ := h
  omega

theorem passes_cons (x : Char) (xs : List Char) (pos : Nat) :
    Passes ⟨x :: xs, pos⟩ [x] ⟨xs, pos + x.utf8Size⟩ :=
  ⟨rfl, rfl⟩

theorem reaches_cons (x : Char) (xs : List Char) (pos : Nat) :
    Reaches ⟨x :: xs, pos⟩ ⟨xs, pos + x.utf8Size⟩ :=
  ⟨[x], passes_cons x xs pos⟩

theorem reaches_advance (c : Cursor) (n : Nat) : c.Reaches (c.advance n) := by
  induction n generalizing c with
  | zero => exact .refl c
  | succ n ih =>
    obtain ⟨rest, pos⟩ := c
    cases rest with
    | nil => exact .refl _
    | cons x xs => exact (reaches_cons x xs pos).trans (ih _)

/-- A sign that stands at a place is what is passed by going over its characters. -/
theorem advance_append (cs rest : List Char) (pos : Nat) :
    advance ⟨cs ++ rest, pos⟩ cs.length = ⟨rest, pos + byteLength cs⟩ := by
  induction cs generalizing pos with
  | nil => rfl
  | cons c cs ih =>
    show advance ⟨cs ++ rest, pos + c.utf8Size⟩ cs.length = _
    rw [ih, byteLength, Nat.add_assoc]

theorem spanFrom_eq (p : Char → Bool) (pos : Nat) (cs : List Char) :
    cs = (spanFrom p pos cs).1 ++ (spanFrom p pos cs).2.rest ∧
      (spanFrom p pos cs).2.pos = pos + byteLength (spanFrom p pos cs).1 := by
  induction cs generalizing pos with
  | nil => exact ⟨rfl, rfl⟩
  | cons c cs ih =>
    rw [spanFrom]
    split
    · obtain ⟨hrest, hpos⟩ := ih (pos + c.utf8Size)
      refine ⟨congrArg (c :: ·) hrest, ?_⟩
      simp only [hpos, byteLength, Nat.add_assoc]
    · exact ⟨rfl, rfl⟩

/-- A span stops in front of the first character that does not satisfy the condition. -/
theorem spanFrom_stops (p : Char → Bool) (pos : Nat) (cs : List Char) :
    (∀ x ∈ (spanFrom p pos cs).1, p x = true) ∧
      ∀ x ∈ (spanFrom p pos cs).2.rest.head?, p x = false := by
  induction cs generalizing pos with
  | nil => simp [spanFrom]
  | cons c cs ih =>
    rw [spanFrom]
    split
    · rename_i hc
      obtain ⟨hall, hstop⟩ := ih (pos + c.utf8Size)
      exact ⟨List.forall_mem_cons.mpr ⟨hc, hall⟩, hstop⟩
    · rename_i hc
      refine ⟨by simp, fun x hx => ?_⟩
      obtain rfl := Option.some.inj hx
      simpa using hc

theorem spanFrom_append {p : Char → Bool} {cs : List Char} (h : ∀ x ∈ cs, p x = true) (pos : Nat)
    (rest : List Char) : spanFrom p pos (cs ++ rest) =
      (cs ++ (spanFrom p (pos + byteLength cs) rest).1,
        (spanFrom p (pos + byteLength cs) rest).2) := by
  induction cs generalizing pos with
  | nil => rfl
  | cons c cs ih =>
    obtain ⟨hc, hcs⟩ := List.forall_mem_cons.mp h
    rw [List.cons_append, spanFrom, if_pos hc, ih hcs, byteLength, ← Nat.add_assoc]
    rfl

theorem span_append {p : Char → Bool} {cs : List Char} (h : ∀ x ∈ cs, p x = true) {x : Char}
    (hx : p x = false) (pos : Nat) (rest : List Char) :
    span p ⟨cs ++ x :: rest, pos⟩ = (cs, ⟨x :: rest, pos + byteLength cs⟩) := by
  rw [span, spanFrom_append h, spanFrom, if_neg (by simp [hx]), List.append_nil]

theorem passes_span (p : Char → Bool) (c : Cursor) : c.Passes (c.span p).1 (c.span p).2 :=
  spanFrom_eq p c.pos c.rest

theorem reaches_span (p : Char → Bool) (c : Cursor) : c.Reaches (c.span p).2 :=
  ⟨_, c.passes_span p⟩

end

end Cursor

namespace Script

open Cursor (Reaches)

/-! ### Escapes -/

section Escape

variable {c after : Cursor} {n value : Nat}

theorem reaches_hexDigits? (h : hexDigits? c n = some (value, after)) : c.Reaches after := by
  simp only [hexDigits?, Option.bind_eq_bind, Option.bind_eq_some_iff] at h
  obtain ⟨v, -, h⟩ := h
  split at h
  · obtain ⟨-, rfl⟩ := Prod.mk.inj (Option.some.inj h)
    exact c.reaches_advance n
  · simp at h

theorem reaches_unicodeEscape? (h : unicodeEscape? c = some (value, after)) :
    c.Reaches after := by
  unfold unicodeEscape? at h
  split at h
  · simp only [Option.bind_eq_bind, Option.bind_eq_some_iff] at h
    obtain ⟨v, -, h⟩ := h
    split at h
    · split at h
      · obtain ⟨-, rfl⟩ := Prod.mk.inj (Option.some.inj h)
        exact (c.reaches_advance 1).trans
          ((Cursor.reaches_span _ _).trans (Cursor.reaches_advance _ 1))
      · simp at h
    · simp at h
  · exact reaches_hexDigits? h

theorem reaches_octalEscape (first : Nat) (c : Cursor) : c.Reaches (octalEscape first c).2 := by
  fun_cases octalEscape first c with
  | case1 | case6 => exact .refl c
  | case2 => exact c.reaches_advance 2
  | case3 | case4 | case5 => exact c.reaches_advance 1

theorem reaches_escape? {inTemplate : Bool} {unit : Option Nat}
    (h : escape? inTemplate c = some (unit, after)) : c.Reaches after := by
  unfold escape? at h
  split at h
  · simp at h
  · obtain ⟨-, rfl⟩ := Prod.mk.inj (Option.some.inj h)
    exact c.reaches_advance 2
  · obtain ⟨⟨v, d⟩, hv, heq⟩ := Option.map_eq_some_iff.mp h
    obtain ⟨-, rfl⟩ := Prod.mk.inj heq
    exact (c.reaches_advance 1).trans (reaches_hexDigits? hv)
  · obtain ⟨⟨v, d⟩, hv, heq⟩ := Option.map_eq_some_iff.mp h
    obtain ⟨-, rfl⟩ := Prod.mk.inj heq
    exact (c.reaches_advance 1).trans (reaches_unicodeEscape? hv)
  · have hone := c.reaches_advance 1
    split at h
    · obtain ⟨-, rfl⟩ := Prod.mk.inj (Option.some.inj h)
      exact hone
    · split at h
      · split at h
        · obtain ⟨-, rfl⟩ := Prod.mk.inj (Option.some.inj h)
          exact hone
        · split at h
          · simp at h
          · obtain ⟨-, rfl⟩ := Prod.mk.inj (Option.some.inj h)
            exact hone.trans (reaches_octalEscape _ _)
      · obtain ⟨-, rfl⟩ := Prod.mk.inj (Option.some.inj h)
        exact hone

end Escape

/-! ### Words and numbers -/

theorem reaches_scanWord (started : Bool) (n : Nat) (c : Cursor) :
    c.Reaches (scanWord started n c).after := by
  fun_induction scanWord started n c with
  | case1 | case6 | case7 => exact .refl _
  | case2 started n c tail hc value after hescape w ih =>
    exact (c.reaches_advance 2).trans ((reaches_unicodeEscape? hescape).trans ih)
  | case3 | case4 => exact Cursor.reaches_advance _ 1
  | case5 started n c x tail hc h1 h2 belongs hbelongs ih =>
    exact (c.reaches_advance 1).trans ih

section Number

variable (start : Cursor)

theorem numberToken_after (after : Cursor) (kind : Kind) :
    (numberToken start after kind).after = after := by
  unfold numberToken
  split
  · split <;> rfl
  · rfl

theorem reaches_wholeNumberToken (after : Cursor) :
    after.Reaches (wholeNumberToken start after).after := by
  unfold wholeNumberToken
  split
  · exact after.reaches_advance 1
  · rw [numberToken_after]
    exact .refl _

theorem reaches_radixToken (isDigit : Char → Bool) :
    start.Reaches (radixToken start isDigit).after := by
  have h := (start.reaches_advance 2).trans
    (Cursor.reaches_span (fun c => isDigit c || c == '_') _)
  unfold radixToken
  dsimp only
  split
  · exact h
  · exact h.trans (reaches_wholeNumberToken _ _)

theorem reaches_exponent? {c after : Cursor} (h : exponent? c = some after) :
    c.Reaches after := by
  have hspan (k : Nat) : c.Reaches ((c.advance k).span isDigitOrSeparator).2 :=
    (c.reaches_advance k).trans (Cursor.reaches_span _ _)
  unfold exponent? at h
  split at h
  · split at h
    · simp only [Option.ite_none_right_eq_some, Option.some.injEq] at h
      obtain ⟨-, rfl⟩ := h
      exact hspan _
    · obtain rfl := Option.some.inj h
      exact .refl c
  · obtain rfl := Option.some.inj h
    exact .refl c

theorem reaches_exponentToken (mantissa : Cursor) :
    mantissa.Reaches (exponentToken start mantissa).after := by
  unfold exponentToken
  split
  · rename_i after h
    rw [numberToken_after]
    exact reaches_exponent? h
  · exact .refl _

theorem reaches_decimal : start.Reaches (scanNumber.decimal start).after := by
  have h := start.reaches_span isDigitOrSeparator
  unfold scanNumber.decimal
  dsimp only
  split
  · rw [numberToken_after]
    exact h
  · split
    · split
      · exact h
      · exact h.trans (reaches_wholeNumberToken _ _)
    · exact h.trans ((Cursor.reaches_advance _ 1).trans
        ((Cursor.reaches_span _ _).trans (reaches_exponentToken _ _)))
    · exact h.trans (reaches_exponentToken _ _)

theorem reaches_scanNumber : start.Reaches (scanNumber start).after := by
  unfold scanNumber
  split
  · split
    · exact reaches_radixToken start _
    · split
      · exact reaches_radixToken start _
      · split
        · exact reaches_radixToken start _
        · exact reaches_decimal start
  · exact reaches_decimal start

theorem reaches_scanFraction : start.Reaches (scanFraction start).after :=
  (start.reaches_advance 1).trans ((Cursor.reaches_span _ _).trans (reaches_exponentToken _ _))

end Number

/-! ### Strings, templates and regular expressions -/

theorem reaches_scanString (quote : Char) (n : Nat) (units : List Nat) (c : Cursor) :
    c.Reaches (scanString quote n units c).after := by
  fun_induction scanString quote n units c with
  | case1 | case2 | case4 => exact .refl _
  | case3 => exact Cursor.reaches_advance _ 1
  | case5 n units c x tail hc hquote hline hslash u after hescape ih =>
    exact (c.reaches_advance 1).trans ((reaches_escape? hescape).trans ih)
  | case6 n units c x tail hc hquote hline hslash after hescape ih =>
    exact (c.reaches_advance 1).trans ((reaches_escape? hescape).trans ih)
  | case7 => exact Cursor.reaches_advance _ 1
  | case8 n units c x tail hc hquote hline hslash ih => exact (c.reaches_advance 1).trans ih

theorem reaches_templatePiece (start : Nat) (whole head : Kind) (n : Nat) (units : List Nat)
    (fault : Option Nat) (c : Cursor) :
    c.Reaches (templatePiece start whole head n units fault c).after := by
  fun_induction templatePiece start whole head n units fault c with
  | case1 | case2 => exact .refl _
  | case3 => exact Cursor.reaches_advance _ 1
  | case4 => exact Cursor.reaches_advance _ 2
  | case5 n units fault c tail hc ih => exact (c.reaches_advance 2).trans ih
  | case6 n units fault c tail hc hne ih => exact (c.reaches_advance 1).trans ih
  | case7 n units fault c tail hc u after hescape ih =>
    exact (c.reaches_advance 1).trans ((reaches_escape? hescape).trans ih)
  | case8 n units fault c tail hc after hescape ih =>
    exact (c.reaches_advance 1).trans ((reaches_escape? hescape).trans ih)
  | case9 n units fault c tail hc hescape ih => exact (c.reaches_advance 1).trans ih
  | case10 => exact (Cursor.reaches_advance _ 1).trans (by assumption)

theorem reaches_regexEnd {pos : Nat} {inClass : Bool} {cs : List Char} {close : Cursor}
    (h : regexEnd pos inClass cs = some close) : Reaches ⟨cs, pos⟩ close := by
  fun_induction regexEnd pos inClass cs with
  | case1 | case2 | case4 => simp at h
  | case3 pos inClass x rest hx ih =>
    have := (Cursor.reaches_cons x rest (pos + 1)).trans (ih h)
    exact (Cursor.reaches_cons '\\' (x :: rest) pos).trans this
  | case5 pos inClass x rest hne hline hslash =>
    obtain rfl := Option.some.inj h
    obtain rfl : x = '/' := by
      simp only [Bool.and_eq_true, beq_iff_eq] at hslash
      exact hslash.1
    exact Cursor.reaches_cons _ _ _
  | case6 pos inClass x rest hne hline hslash ih =>
    exact (Cursor.reaches_cons _ _ _).trans (ih h)

theorem reaches_scanRegex (pos n : Nat) (cs : List Char) :
    Reaches ⟨'/' :: cs, pos⟩ (scanRegex ⟨'/' :: cs, pos⟩ n).after := by
  unfold scanRegex
  split
  · exact Cursor.reaches_advance _ 1
  · rename_i close hclose
    exact (Cursor.reaches_cons '/' cs pos).trans
      ((reaches_regexEnd hclose).trans (reaches_scanWord true n close))

theorem reaches_scanSign (c : Cursor) (x : Char) : c.Reaches (scanSign c x).after := by
  unfold scanSign
  split
  · split <;> exact c.reaches_advance _
  · exact c.reaches_advance _
  · exact c.reaches_advance 1

end Script

end Phrasebook
