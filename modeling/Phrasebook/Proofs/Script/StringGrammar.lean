import Phrasebook.Proofs.Text.Utf16
import Phrasebook.Script.LineEnd
import Phrasebook.Text.Alphabet
import Phrasebook.Text.Hex

/-!
# The grammar of string literals

What the rules of the language say that a string in double quotes stands for, in 16-bit units. They
say nothing about how it is read; a text behind an opening quote has a reading (`Characters`) when
it can be derived. Some escapes are allowed only in code that is not strict.
-/

namespace Phrasebook.Script.StringGrammar

open Text (hexNumber? isAsciiDigit octalValue? unitsOf)

/-! ### Escapes -/

/-- Escapes of one character that stands for another one or for itself. -/
def singleEscape? : Char → Option Nat
  | '\'' => some 0x27
  | '"' => some 0x22
  | '\\' => some 0x5c
  | 'b' => some 0x08
  | 'f' => some 0x0c
  | 'n' => some 0x0a
  | 'r' => some 0x0d
  | 't' => some 0x09
  | 'v' => some 0x0b
  | _ => none

/-- A character that a backslash does not change. -/
def NonEscape (x : Char) : Prop :=
  singleEscape? x = none ∧ isAsciiDigit x = false ∧ x ≠ 'x' ∧ x ≠ 'u' ∧ isLineEnd x = false

def StartsWithOctal (cs : List Char) : Prop := ∃ x ∈ cs.head?, (octalValue? x).isSome

/-- Escapes that strict code does not have, in front of the text `rest`. -/
inductive LegacyEscape : List Char → Nat → List Char → Prop
  | zero {rest : List Char} (hrest : ∃ x ∈ rest.head?, x = '8' ∨ x = '9') :
      LegacyEscape ['0'] 0 rest
  | one {a : Char} {m : Nat} {rest : List Char} (ha : octalValue? a = some m) (hm : m ≠ 0)
      (hrest : ¬ StartsWithOctal rest) : LegacyEscape [a] m rest
  | two {a b : Char} {m n : Nat} {rest : List Char} (ha : octalValue? a = some m)
      (hb : octalValue? b = some n) (hrest : 4 ≤ m ∨ ¬ StartsWithOctal rest) :
      LegacyEscape [a, b] (8 * m + n) rest
  | three {a b c : Char} {m n k : Nat} {rest : List Char} (ha : octalValue? a = some m) (hm : m < 4)
      (hb : octalValue? b = some n) (hc : octalValue? c = some k) :
      LegacyEscape [a, b, c] (64 * m + 8 * n + k) rest
  | nonOctal {a : Char} {rest : List Char} (ha : a = '8' ∨ a = '9') : LegacyEscape [a] a.toNat rest

/-- What may stand behind a backslash, the units that it stands for and the text that follows. At
the end of a line the string goes on with the next one. -/
inductive Escape (strict : Bool) : List Char → List Nat → List Char → Prop
  | single {x : Char} {n : Nat} {rest : List Char} (hx : singleEscape? x = some n) :
      Escape strict [x] [n] rest
  | nonEscape {x : Char} {rest : List Char} (hx : NonEscape x) :
      Escape strict [x] (unitsOf x.toNat) rest
  | null {rest : List Char} (hrest : ∀ x ∈ rest.head?, isAsciiDigit x = false) :
      Escape strict ['0'] [0] rest
  | hex {a b : Char} {n : Nat} {rest : List Char} (hn : hexNumber? [a, b] = some n) :
      Escape strict ['x', a, b] [n] rest
  | unit {a b c d : Char} {n : Nat} {rest : List Char} (hn : hexNumber? [a, b, c, d] = some n) :
      Escape strict ['u', a, b, c, d] [n] rest
  | codePoint {ds : List Char} {n : Nat} {rest : List Char} (hds : ds ≠ [])
      (hn : hexNumber? ds = some n) (hlast : n ≤ 0x10ffff) :
      Escape strict ('u' :: '\x7b' :: (ds ++ ['\x7d'])) (unitsOf n) rest
  | legacy {ds : List Char} {n : Nat} {rest : List Char} (hstrict : strict = false)
      (h : LegacyEscape ds n rest) : Escape strict ds [n] rest
  | lineEnd {x : Char} {rest : List Char} (hx : isLineEnd x = true)
      (hrest : x = '\r' → rest.head? ≠ some '\n') : Escape strict [x] [] rest
  | crlf {rest : List Char} : Escape strict ['\r', '\n'] [] rest

/-! ### Strings -/

/-- A text behind an opening quote, the units that its string stands for and what follows the
closing quote. -/
inductive Characters (strict : Bool) : List Char → List Nat → List Char → Prop
  | close (rest : List Char) : Characters strict ('"' :: rest) [] rest
  | plain {c : Char} {cs : List Char} {us : List Nat} {rest : List Char}
      (hc : c ≠ '"' ∧ c ≠ '\\' ∧ c ≠ '\n' ∧ c ≠ '\r') (h : Characters strict cs us rest) :
      Characters strict (c :: cs) (unitsOf c.toNat ++ us) rest
  | escape {ds cs : List Char} {ns us : List Nat} {rest : List Char} (hds : Escape strict ds ns cs)
      (h : Characters strict cs us rest) :
      Characters strict ('\\' :: (ds ++ cs)) (ns ++ us) rest

/-- A text that begins with a string in double quotes. -/
def ReadsString (strict : Bool) (text : List Char) (us : List Nat) (rest : List Char) : Prop :=
  ∃ cs, text = '"' :: cs ∧ Characters strict cs us rest

/-! ### What the first characters decide -/

variable {strict : Bool} {cs rest : List Char} {us : List Nat}

theorem LegacyEscape.head {ds : List Char} {n : Nat} (h : LegacyEscape ds n rest) :
    ∃ d ds', ds = d :: ds' ∧ isAsciiDigit d = true := by
  have hoctal {a : Char} {m : Nat} (ha : octalValue? a = some m) : isAsciiDigit a = true := by
    unfold octalValue? at ha
    split at ha
    · rename_i hrange
      simp only [isAsciiDigit, Bool.and_eq_true, decide_eq_true_eq]
      exact ⟨hrange.1, Char.le_trans hrange.2 (by decide)⟩
    · cases ha
  cases h with
  | zero => exact ⟨_, _, rfl, by decide⟩
  | one ha | two ha | three ha => exact ⟨_, _, rfl, hoctal ha⟩
  | nonOctal ha => rcases ha with rfl | rfl <;> exact ⟨_, _, rfl, by decide⟩

theorem singleEscape?_some {x : Char} {n : Nat} (hx : singleEscape? x = some n) :
    isAsciiDigit x = false ∧ isLineEnd x = false ∧ x ≠ 'x' ∧ x ≠ 'u' := by
  unfold singleEscape? at hx
  split at hx <;> first | decide | cases hx

theorem Escape.eq_of_single {ds : List Char} {ns : List Nat} {x : Char} {n : Nat}
    (h : Escape strict ds ns rest) (hds : ds ++ rest = x :: cs) (hx : singleEscape? x = some n) :
    ns = [n] ∧ rest = cs := by
  obtain ⟨hdigit, hline, hhex, hunit⟩ := singleEscape?_some hx
  -- a character that stands for another one begins no other escape
  cases h with
  | single hx' =>
    obtain ⟨rfl, rfl⟩ := List.cons.inj hds
    obtain rfl := Option.some.inj (hx.symm.trans hx')
    exact ⟨rfl, rfl⟩
  | nonEscape hx' =>
    obtain ⟨rfl, rfl⟩ := List.cons.inj hds
    rw [hx'.1] at hx
    cases hx
  | null =>
    obtain ⟨rfl, rfl⟩ := List.cons.inj hds
    cases hdigit
  | hex => exact absurd (List.cons.inj hds).1.symm hhex
  | unit | codePoint => exact absurd (List.cons.inj hds).1.symm hunit
  | legacy _ hlegacy =>
    obtain ⟨d, ds', rfl, hd⟩ := hlegacy.head
    obtain ⟨rfl, rfl⟩ := List.cons.inj hds
    rw [hd] at hdigit
    cases hdigit
  | lineEnd hx' =>
    obtain ⟨rfl, rfl⟩ := List.cons.inj hds
    rw [hx'] at hline
    cases hline
  | crlf =>
    obtain ⟨rfl, rfl⟩ := List.cons.inj hds
    cases hline

theorem Escape.eq_of_unit {ds : List Char} {ns : List Nat} {a b c d : Char} {n : Nat}
    (h : Escape strict ds ns rest) (hds : ds ++ rest = 'u' :: a :: b :: c :: d :: cs)
    (hn : hexNumber? [a, b, c, d] = some n) : ns = [n] ∧ rest = cs := by
  cases h with
  | single hx =>
    obtain ⟨rfl, -⟩ := List.cons.inj hds
    cases hx
  | nonEscape hx =>
    obtain ⟨rfl, -⟩ := List.cons.inj hds
    exact absurd rfl hx.2.2.2.1
  | null | hex | crlf => cases (List.cons.inj hds).1
  | unit hn' =>
    simp only [List.cons_append, List.nil_append, List.cons.injEq, true_and] at hds
    obtain ⟨rfl, rfl, rfl, rfl, rfl⟩ := hds
    obtain rfl := Option.some.inj (hn.symm.trans hn')
    exact ⟨rfl, rfl⟩
  | codePoint =>
    -- a brace is no digit
    obtain ⟨rfl, -⟩ := List.cons.inj (List.cons.inj hds).2
    cases hn
  | legacy _ hlegacy =>
    obtain ⟨d, ds', rfl, hd⟩ := hlegacy.head
    obtain ⟨rfl, -⟩ := List.cons.inj hds
    cases hd
  | lineEnd hx =>
    obtain ⟨rfl, -⟩ := List.cons.inj hds
    cases hx

theorem characters_quote_iff :
    Characters strict ('"' :: cs) us rest ↔ us = [] ∧ rest = cs := by
  constructor
  · intro h
    cases h with
    | close => exact ⟨rfl, rfl⟩
    | plain hc => exact absurd rfl hc.1
  · rintro ⟨rfl, rfl⟩
    exact .close rest

theorem characters_plain_iff {c : Char} (hc : c ≠ '"' ∧ c ≠ '\\' ∧ c ≠ '\n' ∧ c ≠ '\r') :
    Characters strict (c :: cs) us rest ↔
      ∃ us', us = unitsOf c.toNat ++ us' ∧ Characters strict cs us' rest := by
  constructor
  · intro h
    cases h with
    | close => exact absurd rfl hc.1
    | plain _ h => exact ⟨_, rfl, h⟩
    | escape => exact absurd rfl hc.2.1
  · rintro ⟨us', rfl, h⟩
    exact .plain hc h

/-- Behind a backslash, a text that is read as one escape only. -/
theorem characters_escape_iff {ds : List Char} {n : Nat} (hds : Escape strict ds [n] cs)
    (honly : ∀ ds' ns rest, Escape strict ds' ns rest → ds' ++ rest = ds ++ cs →
      ns = [n] ∧ rest = cs) :
    Characters strict ('\\' :: (ds ++ cs)) us rest ↔
      ∃ us', us = n :: us' ∧ Characters strict cs us' rest := by
  constructor
  · intro h
    generalize htext : '\\' :: (ds ++ cs) = text at h
    cases h with
    | close => cases (List.cons.inj htext).1
    | plain hc => exact absurd (List.cons.inj htext).1.symm hc.2.1
    | escape hds' h =>
      obtain ⟨rfl, rfl⟩ := honly _ _ _ hds' (List.cons.inj htext).2.symm
      exact ⟨_, rfl, h⟩
  · rintro ⟨us', rfl, h⟩
    exact .escape hds h

theorem characters_single_iff {x : Char} {n : Nat} (hx : singleEscape? x = some n) :
    Characters strict ('\\' :: x :: cs) us rest ↔
      ∃ us', us = n :: us' ∧ Characters strict cs us' rest :=
  characters_escape_iff (.single hx) fun _ _ _ h hds => h.eq_of_single hds hx

theorem characters_unit_iff {a b c d : Char} {n : Nat} (hn : hexNumber? [a, b, c, d] = some n) :
    Characters strict ('\\' :: 'u' :: a :: b :: c :: d :: cs) us rest ↔
      ∃ us', us = n :: us' ∧ Characters strict cs us' rest :=
  characters_escape_iff (.unit hn) fun _ _ _ h hds => h.eq_of_unit hds hn

end Phrasebook.Script.StringGrammar
