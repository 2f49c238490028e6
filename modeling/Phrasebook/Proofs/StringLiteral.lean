import Phrasebook.Call
import Phrasebook.Proofs.Json.Written
import Phrasebook.Proofs.Script.StringGrammar
import Phrasebook.Proofs.Slice

/-!
# Literals of texts

The literal that is written for a text stands on one line and has no quote of its own. By the rules
of the language it is read as the text and as nothing else, whatever follows it
(`readsString_stringLiteral`), and the parser reads it so as well (`literalText_stringLiteral`).
-/

namespace Phrasebook

open Script (GapText IsEscape LiteralText StringBody foldAlone hexDigits?_append isLineEnd scanToken
  textOfUnits unicodeEscape? unicodeEscape?_unbraced)
open Script.StringGrammar
open Text (byteLength hexDigit hexDigits4 unitsOf utf16)

/-! ### Single characters -/

/-- The characters that stand behind a backslash for another one or for themselves. -/
def shortEscapes : List Char := ['"', '\\', 'n', 'r', 't']

/-- A character is written in one of three ways. -/
theorem literalChar_cases (c : Char) :
    (∃ x ∈ shortEscapes, singleEscape? x = some c.toNat ∧ literalChar c = ['\\', x]) ∨
    (c.toNat < 0x10000 ∧ literalChar c = '\\' :: 'u' :: hexDigits4 c.toNat) ∨
    (c ≠ '"' ∧ c ≠ '\\' ∧ isLineEnd c = false ∧ isControl c = false ∧ literalChar c = [c]) := by
  unfold literalChar
  -- five characters have an escape of their own
  by_cases hquote : c = '"'
  · subst hquote
    exact .inl ⟨'"', by decide, rfl, rfl⟩
  rw [if_neg hquote]
  by_cases hbackslash : c = '\\'
  · subst hbackslash
    exact .inl ⟨'\\', by decide, rfl, rfl⟩
  rw [if_neg hbackslash]
  by_cases hn : c = '\n'
  · subst hn
    exact .inl ⟨'n', by decide, rfl, rfl⟩
  rw [if_neg hn]
  by_cases hr : c = '\r'
  · subst hr
    exact .inl ⟨'r', by decide, rfl, rfl⟩
  rw [if_neg hr]
  by_cases ht : c = '\t'
  · subst ht
    exact .inl ⟨'t', by decide, rfl, rfl⟩
  rw [if_neg ht]
  -- two line ends and the control characters are written as units
  by_cases hunit : c.toNat = 0x2028 ∨ c.toNat = 0x2029 ∨ isControl c
  · refine .inr (.inl ⟨?_, if_pos hunit⟩)
    simp only [isControl, Bool.or_eq_true, Bool.and_eq_true, decide_eq_true_eq] at hunit
    omega
  · have hplain := hunit
    simp only [not_or, Bool.not_eq_true] at hplain
    refine .inr (.inr ⟨hquote, hbackslash, ?_, hplain.2.2, if_neg hunit⟩)
    simp [isLineEnd, hn, hr, hplain.1, hplain.2.1]

theorem singleEscape?_lt {x : Char} {n : Nat} (h : singleEscape? x = some n) : n < 0x10000 := by
  unfold singleEscape? at h
  split at h <;> cases h <;> decide

theorem hexDigit_plain {n : Nat} (h : n < 16) : hexDigit n ≠ '"' ∧ hexDigit n ≠ '\\' ∧
    hexDigit n ≠ '\x7b' ∧ isLineEnd (hexDigit n) = false ∧ isControl (hexDigit n) = false := by
  have all : ∀ n < 16, hexDigit n ≠ '"' ∧ hexDigit n ≠ '\\' ∧ hexDigit n ≠ '\x7b' ∧
    isLineEnd (hexDigit n) = false ∧ isControl (hexDigit n) = false := by decide
  exact all n h

theorem plain_of_mem_hexDigits4 {n : Nat} {x : Char} (h : x ∈ hexDigits4 n) :
    x ≠ '"' ∧ x ≠ '\\' ∧ x ≠ '\x7b' ∧ isLineEnd x = false ∧ isControl x = false := by
  obtain ⟨d, hd, rfl⟩ := List.mem_map.mp h
  refine hexDigit_plain ?_
  simp only [List.mem_cons, List.not_mem_nil, or_false] at hd
  omega

theorem oneLine_of_mem_literalChar {c x : Char} (h : x ∈ literalChar c) :
    isLineEnd x = false ∧ isControl x = false := by
  obtain ⟨y, hy, -, heq⟩ | ⟨-, heq⟩ | ⟨-, -, hline, hcontrol, heq⟩ := literalChar_cases c
  · rw [heq, List.mem_cons, List.mem_singleton] at h
    rcases h with rfl | rfl
    · decide
    · simp only [shortEscapes, List.mem_cons, List.not_mem_nil, or_false] at hy
      rcases hy with rfl | rfl | rfl | rfl | rfl <;> decide
  · rw [heq, List.mem_cons, List.mem_cons] at h
    rcases h with rfl | rfl | h
    · decide
    · decide
    · exact (plain_of_mem_hexDigits4 h).2.2.2
  · rw [heq, List.mem_singleton] at h
    subst h
    exact ⟨hline, hcontrol⟩

/-! ### Quotes -/

/-- What is left of a text without its escapes: a backslash goes with the character behind it, and
stays only where there is none. -/
def unescaped : List Char → List Char
  | '\\' :: _ :: cs => unescaped cs
  | c :: cs => c :: unescaped cs
  | [] => []

theorem unescaped_cons {c : Char} (hc : c ≠ '\\') (cs : List Char) :
    unescaped (c :: cs) = c :: unescaped cs := by
  rw [unescaped]
  rintro - - rfl -
  exact hc rfl

theorem unescaped_append {ds : List Char} (hds : ∀ d ∈ ds, d ≠ '\\') (cs : List Char) :
    unescaped (ds ++ cs) = ds ++ unescaped cs := by
  induction ds with
  | nil => rfl
  | cons d ds ih =>
    rw [List.cons_append, unescaped_cons (hds d (.head _)),
      ih fun x hx => hds x (.tail _ hx), List.cons_append]

theorem mem_unescaped_literalChar {c x : Char} {cs : List Char}
    (h : x ∈ unescaped (literalChar c ++ cs)) : (x ≠ '"' ∧ x ≠ '\\') ∨ x ∈ unescaped cs := by
  obtain ⟨y, -, -, heq⟩ | ⟨-, heq⟩ | ⟨hquote, hbackslash, -, -, heq⟩ := literalChar_cases c
  · rw [heq] at h
    exact .inr h
  · rw [heq] at h
    change x ∈ unescaped (hexDigits4 c.toNat ++ cs) at h
    rw [unescaped_append fun d hd => (plain_of_mem_hexDigits4 hd).2.1, List.mem_append] at h
    exact h.imp_left fun hx => ⟨(plain_of_mem_hexDigits4 hx).1, (plain_of_mem_hexDigits4 hx).2.1⟩
  · rw [heq, List.singleton_append, unescaped_cons hbackslash, List.mem_cons] at h
    refine h.imp_left ?_
    rintro rfl
    exact ⟨hquote, hbackslash⟩

theorem ne_of_mem_unescaped {cs : List Char} {x : Char}
    (h : x ∈ unescaped (cs.flatMap literalChar)) : x ≠ '"' ∧ x ≠ '\\' := by
  induction cs with
  | nil => cases h
  | cons c cs ih =>
    rw [List.flatMap_cons] at h
    exact (mem_unescaped_literalChar h).elim id ih

/-! ### Reading by the rules -/

section

variable {strict : Bool} {us : List Nat} {after rest : List Char}

theorem characters_literalChar_iff (c : Char) {cs : List Char} :
    Characters strict (literalChar c ++ cs) us rest ↔
      ∃ us', us = unitsOf c.toNat ++ us' ∧ Characters strict cs us' rest := by
  obtain ⟨x, -, hx, heq⟩ | ⟨hsmall, heq⟩ | ⟨hquote, hbackslash, hline, -, heq⟩ :=
    literalChar_cases c
  · rw [heq, unitsOf, if_pos (singleEscape?_lt hx)]
    exact characters_single_iff hx
  · rw [heq, unitsOf, if_pos hsmall]
    exact characters_unit_iff (Text.hexNumber?_hexDigits4 hsmall)
  · rw [heq]
    refine characters_plain_iff ⟨hquote, hbackslash, ?_, ?_⟩ <;>
    · rintro rfl
      cases hline

theorem characters_flatMap_iff (cs : List Char) :
    Characters strict (cs.flatMap literalChar ++ '"' :: after) us rest ↔
      us = utf16 cs ∧ rest = after := by
  induction cs generalizing us with
  | nil => exact characters_quote_iff
  | cons c cs ih =>
    rw [List.flatMap_cons, List.append_assoc, characters_literalChar_iff]
    constructor
    · rintro ⟨us', rfl, h⟩
      obtain ⟨rfl, rfl⟩ := ih.mp h
      exact ⟨rfl, rfl⟩
    · rintro ⟨rfl, rfl⟩
      exact ⟨utf16 cs, rfl, ih.mpr ⟨rfl, rfl⟩⟩

theorem toList_stringLiteral (s : String) :
    (stringLiteral s).toList = '"' :: (s.toList.flatMap literalChar ++ ['"']) := by
  rw [stringLiteral, String.toList_ofList, List.cons_append]

theorem readsString_stringLiteral_iff (s : String) :
    ReadsString strict ((stringLiteral s).toList ++ after) us rest ↔
      us = utf16 s.toList ∧ rest = after := by
  rw [toList_stringLiteral, List.cons_append, List.append_assoc, List.singleton_append]
  constructor
  · rintro ⟨cs, hcs, h⟩
    obtain ⟨-, rfl⟩ := List.cons.inj hcs
    exact (characters_flatMap_iff s.toList).mp h
  · intro h
    exact ⟨_, rfl, (characters_flatMap_iff s.toList).mpr h⟩

end

/-! ### Reading by the parser -/

theorem isEscape_short {x : Char} (hx : x ∈ shortEscapes) {n : Nat}
    (hn : singleEscape? x = some n) (next : Char) : IsEscape false [x] (some n) next := by
  intro rest pos
  simp only [shortEscapes, List.mem_cons, List.not_mem_nil, or_false] at hx
  rcases hx with rfl | rfl | rfl | rfl | rfl <;> obtain rfl := Option.some.inj hn <;> rfl

theorem isEscape_unit {n : Nat} (hn : n < 0x10000) (next : Char) :
    IsEscape false ('u' :: hexDigits4 n) (some n) next := by
  intro rest pos
  have hbrace : ∀ tail, hexDigits4 n ++ next :: rest ≠ '\x7b' :: tail := by
    intro tail htail
    have hmem : '\x7b' ∈ hexDigits4 n := by
      rw [← (List.cons.inj htail).1]
      exact List.mem_cons_self
    exact (plain_of_mem_hexDigits4 hmem).2.2.1 rfl
  have hread : unicodeEscape? ⟨hexDigits4 n ++ next :: rest, pos + 1⟩
      = some (n, ⟨next :: rest, pos + 1 + byteLength (hexDigits4 n)⟩) := by
    rw [unicodeEscape?_unbraced hbrace]
    exact hexDigits?_append (Text.hexNumber?_hexDigits4 hn) (next :: rest) (pos + 1)
  show (unicodeEscape? ⟨hexDigits4 n ++ next :: rest, pos + 1⟩).map _ = _
  rw [hread, byteLength, ← Nat.add_assoc]
  rfl

theorem stringBody_literalChar (c : Char) {body : List Char} {units : List Nat}
    (h : StringBody '"' body units '"') :
    StringBody '"' (literalChar c ++ body) (c.toNat :: units) '"' := by
  obtain ⟨next, hnext⟩ : ∃ next, ∀ rest, (body ++ '"' :: rest).head? = some next := by
    cases body with
    | nil => exact ⟨'"', fun _ => rfl⟩
    | cons x xs => exact ⟨x, fun _ => rfl⟩
  obtain ⟨x, hx, hvalue, heq⟩ | ⟨hsmall, heq⟩ | ⟨hquote, hbackslash, hline, -, heq⟩ :=
    literalChar_cases c
  · rw [heq]
    exact h.escape (by decide) (isEscape_short hx hvalue next) hnext
  · rw [heq]
    exact h.escape (by decide) (isEscape_unit hsmall next) hnext
  · rw [heq]
    refine h.char hquote ⟨?_, ?_⟩ hbackslash <;>
    · rintro rfl
      cases hline

theorem stringBody_flatMap (cs : List Char) :
    StringBody '"' (cs.flatMap literalChar) (cs.map Char.toNat) '"' := by
  induction cs with
  | nil => exact .nil
  | cons c cs ih => exact stringBody_literalChar c ih

theorem literalText_stringLiteral (s : String) :
    LiteralText none (stringLiteral s).toList .string s := by
  have htext : textOfUnits (s.toList.map Char.toNat) = some s := by
    rw [textOfUnits, Text.ofUnits_map_toNat, Option.map_some, String.ofList_toList]
  rw [toList_stringLiteral]
  exact .string (.inl rfl) (stringBody_flatMap s.toList) htext

theorem foldAlone_stringLiteral (jsx : Bool) (s : String) :
    foldAlone jsx (stringLiteral s).toList = some s := by
  have h := foldAlone_append jsx GapText.nil (.literal (literalText_stringLiteral s))
  rwa [List.nil_append, Option.toList_none, List.append_nil] at h

/-- The literal of a text is one string in double quotes, on one line and without control
characters, and no quote in it lacks its backslash. By the rules of the language it stands for the
text, whatever follows it, and for nothing else; the lexer reads this token, and the text is that
of the expression. So texts with the same literal are the same. -/
theorem stringLiteral_reads (s : String) :
    (∃ body, (stringLiteral s).toList = '"' :: (body ++ ['"']) ∧
      (∀ x ∈ body, isLineEnd x = false ∧ isControl x = false) ∧
      ∀ x ∈ unescaped body, x ≠ '"' ∧ x ≠ '\\') ∧
    (∀ strict after us rest, ReadsString strict ((stringLiteral s).toList ++ after) us rest ↔
      us = utf16 s.toList ∧ rest = after) ∧
    (∀ n after pos, (stringLiteral s).toList.length < n →
      scanToken n ⟨(stringLiteral s).toList ++ after, pos⟩ =
        ⟨⟨.string, some s, none⟩, ⟨after, pos + byteLength (stringLiteral s).toList⟩⟩) ∧
    (∀ jsx, foldAlone jsx (stringLiteral s).toList = some s) ∧
    ∀ t, stringLiteral t = stringLiteral s → t = s := by
  refine ⟨⟨s.toList.flatMap literalChar, toList_stringLiteral s, fun x hx => ?_,
      fun x hx => ne_of_mem_unescaped hx⟩,
    fun strict after us rest => readsString_stringLiteral_iff s,
    fun n after pos hn => (literalText_stringLiteral s).scanToken_eq hn (by simp) pos,
    fun jsx => foldAlone_stringLiteral jsx s, fun t ht => ?_⟩
  · obtain ⟨c, -, hc⟩ := List.mem_flatMap.mp hx
    exact oneLine_of_mem_literalChar hc
  · have hfold := foldAlone_stringLiteral false t
    rw [ht, foldAlone_stringLiteral] at hfold
    exact (Option.some.inj hfold).symm

/-- A quote behind a backslash, a control character in front of a hexadecimal digit, a separator of
lines and a character of two units. -/
theorem stringLiteral_reads_escaped :
    stringLiteral "\\\"\u0001f\u2028😀" = "\"\\\\\\\"\\u0001f\\u2028😀\"" ∧
    (∀ strict after, ReadsString strict ((stringLiteral "\\\"\u0001f\u2028😀").toList ++ after)
      [0x5c, 0x22, 0x01, 0x66, 0x2028, 0xd83d, 0xde00] after) ∧
    scanToken 24 ⟨(stringLiteral "\\\"\u0001f\u2028😀").toList ++ [' ', '\x7d'], 3⟩ =
      ⟨⟨.string, some "\\\"\u0001f\u2028😀", none⟩, ⟨[' ', '\x7d'], 26⟩⟩ := by
  obtain ⟨-, hreads, hscan, -, -⟩ := stringLiteral_reads "\\\"\u0001f\u2028😀"
  exact ⟨by decide, fun strict after => (hreads strict after _ after).mpr ⟨rfl, rfl⟩,
    hscan 24 [' ', '\x7d'] 3 (by decide)⟩

end Phrasebook
