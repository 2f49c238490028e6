import Phrasebook.Proofs.Script.Gap
import Phrasebook.Proofs.Script.Literal
import Phrasebook.Proofs.Script.Word

/-!
# Where the lexer stands

A lexer that reads a text stands in it (`Lexer.On`): its places are places of the text, one behind
the other, a token that is written in one way only is spelled so, and a string or a template with a
value is a literal. Reading on keeps this, and so does putting another token in the place of the
current one.
-/

namespace Phrasebook.Script

open Cursor (Passes Reaches)
open Text (byteLength isIdentifierPart isPictograph length_le_byteLength)

/-! ### Spellings -/

/-- The spelling of a token, for some that have only one. -/
def Kind.spelling? : Kind → Option (List Char)
  | .kwReturn => some "return".toList
  | .arrow => some "=>".toList
  | .parenOpen => some "(".toList
  | .parenClose => some ")".toList
  | .bracketOpen => some "[".toList
  | .comma => some ",".toList
  | .colon => some ":".toList
  | .plus => some "+".toList
  | .slash => some "/".toList
  | .less => some "<".toList
  | .shiftLeft => some "<<".toList
  | _ => none

/-- What a token that begins at the place `c` has to look like. -/
structure Scanned.Fits (s : Scanned) (c : Cursor) : Prop where
  reaches : c.Reaches s.after
  spelled : ∀ cs ∈ s.token.kind.spelling?, c.Passes cs s.after
  quoted : s.token.kind = .string ∨ s.token.kind = .templateWhole → s.IsLiteral c
  stops : s.token.kind = .kwReturn → StopsWord s.after.rest

/-- Kinds of tokens about which nothing more is known. -/
def Kind.isFree (k : Kind) : Bool :=
  k.spelling?.isNone && k != .string && k != .templateWhole

theorem Scanned.Fits.of_isFree {s : Scanned} {c : Cursor} (h : c.Reaches s.after)
    (hkind : s.token.kind.isFree = true) : s.Fits c := by
  simp only [Kind.isFree, Bool.and_eq_true, Option.isNone_iff_eq_none, bne_iff_ne] at hkind
  obtain ⟨⟨hspelling, hstring⟩, htemplate⟩ := hkind
  refine ⟨h, fun cs hcs => ?_, fun hquoted => ?_, fun hreturn => ?_⟩
  · rw [hspelling] at hcs
    simp at hcs
  · rcases hquoted with h | h
    · exact absurd h hstring
    · exact absurd h htemplate
  · rw [hreturn] at hspelling
    simp [Kind.spelling?] at hspelling

/-! ### Words -/

/-- A word without escapes is spelled by its characters. -/
theorem scanWord_chars {started : Bool} {n : Nat} {c : Cursor}
    (h : (scanWord started n c).escaped = false) :
    c.Passes (scanWord started n c).chars (scanWord started n c).after := by
  fun_induction scanWord started n c with
  | case1 | case6 | case7 => exact ⟨rfl, rfl⟩
  | case2 | case3 | case4 => simp at h
  | case5 started n c x tail h1 h2 hc belongs hbelongs ih =>
    obtain ⟨rest, pos⟩ := c
    obtain rfl : rest = x :: tail := hc
    obtain ⟨hrest, hpos⟩ := ih h
    refine ⟨congrArg (x :: ·) hrest, ?_⟩
    rw [Word.cons, hpos, byteLength, ← Nat.add_assoc]
    rfl

/-- A word is read to its end. -/
theorem stopsWord_scanWord {started : Bool} {n : Nat} {c : Cursor} (hn : c.rest.length < n)
    (hescaped : (scanWord started n c).escaped = false)
    (hstarted : started = true ∨ (scanWord started n c).chars ≠ []) :
    StopsWord (scanWord started n c).after.rest := by
  fun_induction scanWord started n c with
  | case1 => omega
  | case2 | case3 | case4 => simp at hescaped
  | case5 started n c x tail h1 h2 hc belongs hbelongs ih =>
    obtain ⟨rest, pos⟩ := c
    obtain rfl : rest = x :: tail := hc
    exact ih (Nat.lt_of_succ_lt_succ hn) hescaped (.inl rfl)
  | case6 started n c x tail h1 h2 hc belongs hbelongs =>
    rw [hc]
    intro y hy
    obtain rfl : x = y := by simpa using hy
    -- without a first character the word is empty, so it has begun here
    have hgone : started = true := hstarted.resolve_right fun hne => hne rfl
    have hends : isIdentifierPart x = false ∧ isPictograph x = false := by
      simpa [belongs, hgone] using hbelongs
    exact ⟨h2, hends⟩
  | case7 started n c hc =>
    rw [hc]
    simp [StopsWord]

theorem fits_wordToken {c : Cursor} {n : Nat} (hn : c.rest.length < n) :
    (wordToken c n).Fits c := by
  have hreaches := reaches_scanWord false n c
  -- all words are free of further conditions but `return`, which a gap or a text follows
  have htable : ∀ e ∈ Kind.keywords ++ Kind.contextualWords, e.2.isFree = true ∨
      e = ("return", Kind.kwReturn) := by decide
  unfold wordToken
  dsimp only
  split
  · exact .of_isFree hreaches rfl
  · split
    · rename_i hescaped
      rcases ofWord_eq_name_or_mem (String.ofList (scanWord false n c).chars) with hname | hmem
      · exact .of_isFree hreaches (by rw [hname]; rfl)
      · rcases htable _ hmem with hfree | hreturn
        · exact .of_isFree hreaches hfree
        · obtain ⟨htext, hkind⟩ := Prod.mk.inj hreturn
          have hchars : (scanWord false n c).chars = "return".toList := by
            rw [← htext, String.toList_ofList]
          have hspelled := scanWord_chars (by simpa using hescaped)
          rw [hchars] at hspelled
          refine ⟨hreaches, fun cs hcs => ?_, fun hquoted => ?_, fun _ => ?_⟩
          · rw [hkind] at hcs
            obtain rfl : "return".toList = cs := Option.some.inj hcs
            exact hspelled
          · dsimp only at hquoted
            rw [hkind] at hquoted
            simp at hquoted
          · refine stopsWord_scanWord hn (by simpa using hescaped) (.inr ?_)
            rw [hchars]
            decide
    · split
      · exact .of_isFree hreaches rfl
      · exact .of_isFree hreaches rfl

/-! ### Signs -/

/-- The spelling of a sign in the table is that of its kind. -/
theorem spelling?_of_mem_signs {x : Char} {e : String × Kind} (he : e ∈ signs x) :
    (∀ cs ∈ e.2.spelling?, cs = e.1.toList) ∧ e.2 ≠ .string ∧ e.2 ≠ .templateWhole ∧
      e.2 ≠ .kwReturn := by
  unfold signs at he
  split at he <;> revert e <;> decide

theorem fits_scanSign (c : Cursor) (x : Char) : (scanSign c x).Fits c := by
  have hreaches := reaches_scanSign c x
  revert hreaches
  unfold scanSign
  split
  · split
    · exact fun h => .of_isFree h rfl
    · exact fun h => .of_isFree h rfl
  · rename_i s kind hne hfound
    intro hreaches
    obtain ⟨hspelling, hstring, htemplate, hreturn⟩ :=
      spelling?_of_mem_signs (List.mem_of_find?_eq_some hfound)
    have hstarts : c.startsWith s = true := by
      simpa using List.find?_some hfound
    obtain ⟨chars, pos⟩ := c
    obtain ⟨rest, rfl⟩ := List.isPrefixOf_iff_prefix.mp hstarts
    refine ⟨hreaches, fun cs hcs => ?_, fun hquoted => ?_, fun h => absurd h hreturn⟩
    · obtain rfl := hspelling cs hcs
      rw [Scanned.plain, Cursor.advance_append]
      exact ⟨rfl, rfl⟩
    · rcases hquoted with h | h
      · exact absurd h hstring
      · exact absurd h htemplate
  · exact fun h => .of_isFree h rfl

/-! ### Literals -/

section Literal

variable (start : Cursor)

theorem isFree_numberToken (after : Cursor) :
    (numberToken start after .number).token.kind.isFree = true := by
  unfold numberToken
  split
  · split <;> rfl
  · rfl

theorem isFree_wholeNumberToken (after : Cursor) :
    (wholeNumberToken start after).token.kind.isFree = true := by
  unfold wholeNumberToken
  split
  · rfl
  · exact isFree_numberToken start after

theorem isFree_radixToken (isDigit : Char → Bool) :
    (radixToken start isDigit).token.kind.isFree = true := by
  unfold radixToken
  dsimp only
  split
  · rfl
  · exact isFree_wholeNumberToken start _

theorem isFree_exponentToken (mantissa : Cursor) :
    (exponentToken start mantissa).token.kind.isFree = true := by
  unfold exponentToken
  split
  · exact isFree_numberToken start _
  · rfl

theorem isFree_decimal : (scanNumber.decimal start).token.kind.isFree = true := by
  unfold scanNumber.decimal
  dsimp only
  split
  · exact isFree_numberToken start _
  · split
    · split
      · rfl
      · exact isFree_wholeNumberToken start _
    · exact isFree_exponentToken start _
    · exact isFree_exponentToken start _

theorem isFree_scanNumber : (scanNumber start).token.kind.isFree = true := by
  unfold scanNumber
  split
  · split
    · exact isFree_radixToken start _
    · split
      · exact isFree_radixToken start _
      · split
        · exact isFree_radixToken start _
        · exact isFree_decimal start
  · exact isFree_decimal start

end Literal

theorem Scanned.Fits.of_isLiteral {s : Scanned} {c : Cursor} (h : c.Reaches s.after)
    (hkind : s.token.kind.spelling? = none)
    (hquoted : s.token.kind = .string ∨ s.token.kind = .templateWhole → s.IsLiteral c) :
    s.Fits c := by
  refine ⟨h, fun cs hcs => ?_, hquoted, fun hreturn => ?_⟩
  · rw [hkind] at hcs
    simp at hcs
  · rw [hreturn] at hkind
    simp [Kind.spelling?] at hkind

theorem kind_scanString (quote : Char) (n : Nat) (units : List Nat) (c : Cursor) :
    (scanString quote n units c).token.kind ∈ [.invalid, .string] := by
  fun_induction scanString quote n units c with
  | case1 | case2 | case3 | case4 | case7 => simp [Scanned.fail]
  | case5 | case6 | case8 => assumption

theorem kind_templatePiece (start : Nat) (whole head : Kind) (n : Nat) (units : List Nat)
    (fault : Option Nat) (c : Cursor) :
    (templatePiece start whole head n units fault c).token.kind ∈ [.invalid, whole, head] := by
  fun_induction templatePiece start whole head n units fault c with
  | case1 | case2 | case3 | case4 => simp [Scanned.fail]
  | case5 | case6 | case7 | case8 | case9 | case10 => assumption

theorem fits_scanToken {n : Nat} {c : Cursor} (hn : c.rest.length < n) :
    (scanToken n c).Fits c := by
  obtain ⟨rest, pos⟩ := c
  unfold scanToken
  dsimp only
  split
  · exact .of_isFree (.refl _) rfl
  · rename_i x xs
    have hxs : xs.length < n := Nat.lt_of_succ_lt hn
    have hone := Cursor.reaches_cons x xs pos
    split
    · rename_i hquote
      have hquote : x = '"' ∨ x = '\'' := by simpa using hquote
      have hkind := kind_scanString x n [] ⟨xs, pos + x.utf8Size⟩
      -- what is no string is invalid, and then nothing is said of it
      have hkinds : ∀ k ∈ [Kind.invalid, .string], k.spelling? = none ∧
          (k = .string ∨ k = .templateWhole → k = .string) := by decide
      exact .of_isLiteral (hone.trans (reaches_scanString _ _ _ _)) (hkinds _ hkind).1
        fun h => isLiteral_scanString hquote hxs ((hkinds _ hkind).2 h)
    · split
      · rename_i hquote
        obtain rfl : x = '\x60' := eq_of_beq hquote
        have hkind := kind_templatePiece pos .templateWhole .templateHead n [] none ⟨xs, pos + 1⟩
        have hkinds : ∀ k ∈ [Kind.invalid, .templateWhole, .templateHead], k.spelling? = none ∧
            (k = .string ∨ k = .templateWhole → k = .templateWhole) := by decide
        exact .of_isLiteral (hone.trans (reaches_templatePiece _ _ _ _ _ _ _)) (hkinds _ hkind).1
          fun h => isLiteral_templatePiece hxs ((hkinds _ hkind).2 h)
      · split
        · exact .of_isFree (reaches_scanNumber _) (isFree_scanNumber _)
        · split
          · exact .of_isFree (reaches_scanFraction _) (isFree_exponentToken _ _)
          · split
            · exact fits_wordToken hn
            · exact fits_scanSign _ x

/-- A `<` that stands in front of anything. -/
theorem fits_less {c : Cursor} {cs : List Char} (h : c.rest = '<' :: cs) :
    (Scanned.plain .less (c.advance 1)).Fits c := by
  obtain ⟨rest, pos⟩ := c
  obtain rfl : rest = '<' :: cs := h
  refine ⟨Cursor.reaches_cons '<' cs pos, fun cs' hcs => ?_, by simp [Scanned.plain],
    by simp [Scanned.plain]⟩
  obtain rfl : ['<'] = cs' := Option.some.inj hcs
  exact Cursor.passes_cons '<' cs pos

/-! ### Lexers in a text -/

/-- A place of a text, by the number of bytes in front of it. -/
def IsPlace (text : List Char) (n : Nat) : Prop := ∃ d, Reaches ⟨text, 0⟩ d ∧ d.pos = n

namespace Lexer

theorem length_lt_bound {text : List Char} {c : Cursor} (h : Reaches ⟨text, 0⟩ c) :
    c.rest.length < bound (byteLength text) c := by
  obtain ⟨before, htext, hpos⟩ := h
  have hbefore : c.pos = byteLength before := hpos.trans (Nat.zero_add _)
  have hlength := length_le_byteLength c.rest
  have hsize : byteLength text = byteLength before + byteLength c.rest := by
    rw [← Text.byteLength_append]
    exact congrArg byteLength htext
  unfold bound
  omega

/-- The lexer stands in a text. Its token begins in front of its first character when a comment
counts as a part of it. -/
structure On (text : List Char) (l : Lexer) : Prop where
  here : Reaches ⟨text, 0⟩ l.here
  fits : Scanned.Fits ⟨l.token, l.after⟩ l.here
  starts : ∃ d cs, Reaches ⟨text, 0⟩ d ∧ d.pos = l.pos ∧ d.Passes cs l.here ∧
    (l.here.rest ≠ [] → ∃ lines, GapText lines cs)
  isPlace_previousEnd : IsPlace text l.previousEnd
  previousEnd_le : l.previousEnd ≤ l.pos
  size : l.size = byteLength text

variable {text : List Char} {l : Lexer}

theorem On.isPlace_pos (h : l.On text) : IsPlace text l.pos := by
  obtain ⟨d, -, hd, hpos, -⟩ := h.starts
  exact ⟨d, hd, hpos⟩

theorem On.pos_le (h : l.On text) : l.pos ≤ l.here.pos := by
  obtain ⟨d, cs, -, hpos, hcs, -⟩ := h.starts
  rw [← hpos]
  exact Reaches.pos_le ⟨cs, hcs⟩

theorem On.after (h : l.On text) : Reaches ⟨text, 0⟩ l.after := h.here.trans h.fits.reaches

theorem On.spelled (h : l.On text) {k : Kind} {cs : List Char} (hkind : l.kind = k)
    (hcs : k.spelling? = some cs) : l.here.Passes cs l.after :=
  h.fits.spelled cs (by rw [← hkind] at hcs; exact hcs)

theorem On.pos_le_endPos (h : l.On text) : l.pos ≤ l.endPos :=
  Nat.le_trans h.pos_le h.fits.reaches.pos_le

/-- Whatever the token in hand is, the next one stands in the text. -/
theorem on_next (hafter : Reaches ⟨text, 0⟩ l.after) (hsize : l.size = byteLength text) :
    l.next.On text := by
  have hbound : l.after.rest.length < bound l.size l.after := hsize ▸ length_lt_bound hafter
  obtain ⟨front, d, cs, hfront, -, hpos, hcs, hgap⟩ :=
    Gap.exists_tokenStart_run (g := ⟨l.after, false, [], none⟩) (some l.token.kind) hbound rfl
  have hd : l.after.Reaches d := ⟨front, hfront⟩
  have hplace := hafter.trans hd
  have hhere : Reaches ⟨text, 0⟩ l.next.here := hplace.trans ⟨cs, hcs⟩
  have hlength : l.next.here.rest.length < bound l.size l.next.here := by
    rw [hsize]
    exact length_lt_bound hhere
  exact {
    here := hhere
    fits := fits_scanToken hlength
    starts := ⟨d, cs, hplace, hpos, hcs, hgap⟩
    isPlace_previousEnd := ⟨l.after, hafter, rfl⟩
    previousEnd_le := Nat.le_trans hd.pos_le (Nat.le_of_eq hpos)
    size := hsize }

theorem On.next (h : l.On text) : l.next.On text := on_next h.after h.size

/-- Between a token and the next one stands a gap. -/
theorem On.gap (h : l.On text) : ∃ cs, l.after.Passes cs l.next.here ∧
    (l.next.here.rest ≠ [] → GapText false cs) :=
  Gap.exists_gapText_run (g := ⟨l.after, false, [], none⟩) (some l.token.kind)
    (h.size ▸ length_lt_bound h.after)

/-- What stands in front of the next token begins with a blank or a slash. -/
theorem On.front (h : l.On text) : ∃ front d, l.after.Passes front d ∧ d.pos = l.next.pos ∧
    ∀ x ∈ front.head?, isSpace x = true ∨ x = '/' := by
  obtain ⟨front, d, -, hfront, hhead, hpos, -, -⟩ :=
    Gap.exists_tokenStart_run (g := ⟨l.after, false, [], none⟩) (some l.token.kind)
      (h.size ▸ length_lt_bound h.after) rfl
  exact ⟨front, d, hfront, hpos, hhead⟩

theorem On.pos_le_next (h : l.On text) : l.pos ≤ l.next.pos :=
  Nat.le_trans h.pos_le_endPos h.next.previousEnd_le

theorem on_start (text : List Char) : (start text).On text := by
  -- behind a line that begins with `#!`, if there is one
  obtain ⟨first, hfirst, hstart⟩ : ∃ first, Reaches ⟨text, 0⟩ first ∧
      (if Cursor.startsWith ⟨text, 0⟩ "#!" then (Cursor.span (!isLineEnd ·) ⟨text, 0⟩).2
        else ⟨text, 0⟩) = first := by
    refine ⟨_, ?_, rfl⟩
    split
    · exact Cursor.reaches_span _ _
    · exact .refl _
  obtain ⟨front, d, cs, hfront, -, hpos, hcs, hgap⟩ :=
    Gap.exists_tokenStart_run (g := ⟨first, true, [], none⟩) none (length_lt_bound hfirst) rfl
  have hplace := hfirst.trans ⟨front, hfront⟩
  have h : (start text).here =
      (Gap.run none (bound (byteLength text) first) { after := first, lineBreak := true }).after ∧
      (start text).pos = d.pos := by
    rw [hpos]
    unfold start
    dsimp only
    rw [hstart]
    exact ⟨rfl, rfl⟩
  rw [← h.1] at hcs hgap
  have hhere : Reaches ⟨text, 0⟩ (start text).here := hplace.trans ⟨cs, hcs⟩
  exact {
    here := hhere
    fits := fits_scanToken (length_lt_bound hhere)
    starts := ⟨d, cs, hplace, h.2.symm, hcs, hgap⟩
    isPlace_previousEnd := ⟨⟨text, 0⟩, .refl _, rfl⟩
    previousEnd_le := Nat.zero_le _
    size := rfl }

/-! ### Other tokens in the place of the current one -/

theorem On.reread (h : l.On text) {s : Scanned} (hs : s.Fits l.here) : (l.reread s).On text :=
  { h with fits := hs }

theorem On.rereadRegex (h : l.On text) {cs : List Char} (hslash : l.here.rest = '/' :: cs) :
    l.rereadRegex.On text := by
  refine h.reread (.of_isFree ?_ ?_)
  · obtain ⟨⟨rest, pos⟩, hhere⟩ : ∃ c, l.here = c := ⟨_, rfl⟩
    rw [hhere] at hslash ⊢
    obtain rfl : rest = '/' :: cs := hslash
    exact reaches_scanRegex pos _ cs
  · unfold scanRegex
    split <;> rfl

theorem On.rereadTemplate (h : l.On text) : l.rereadTemplate.On text := by
  refine h.reread (.of_isFree ?_ ?_)
  · exact (Cursor.reaches_advance _ 1).trans (reaches_templatePiece _ _ _ _ _ _ _)
  · have hkinds : ∀ k ∈ [Kind.invalid, .templateTail, .templateMiddle], k.isFree = true := by
      decide
    exact hkinds _ (kind_templatePiece _ _ _ _ _ _ _)

theorem On.rereadLess (h : l.On text) (hkind : l.kind = .shiftLeft) :
    (l.rereadFirst .less).On text := by
  obtain ⟨hrest, -⟩ := h.spelled hkind rfl
  exact h.reread (fits_less hrest)

theorem On.rereadGreater (h : l.On text) : l.rereadGreater.On text := by
  have hsigns : ∀ e ∈ greaterSigns, e.2.isFree = true := by decide
  unfold Lexer.rereadGreater
  split
  · rename_i s kind hfound
    exact h.reread
      (.of_isFree (Cursor.reaches_advance _ _) (hsigns _ (List.mem_of_find?_eq_some hfound)))
  · exact h

theorem rereadGreater_pos (l : Lexer) : l.rereadGreater.pos = l.pos := by
  unfold Lexer.rereadGreater
  split <;> rfl

theorem On.rereadHyphenated (h : l.On text) : l.rereadHyphenated.On text :=
  h.reread (.of_isFree (Cursor.reaches_span _ _) rfl)

/-- A string without escapes is none as others are, but behind it the text goes on. -/
theorem On.rereadQuoted (h : l.On text) : l.rereadQuoted.next.On text ∧
    l.pos ≤ l.rereadQuoted.next.pos ∧
      (l.rereadQuoted.kind ≠ .string → l.rereadQuoted.On text ∧ l.rereadQuoted.pos = l.pos) := by
  have hnext {s : Scanned} (hs : l.here.Reaches s.after) : (l.reread s).next.On text ∧
      l.pos ≤ (l.reread s).next.pos := by
    have hon : (l.reread s).next.On text := on_next (h.here.trans hs) h.size
    exact ⟨hon, Nat.le_trans h.pos_le (Nat.le_trans hs.pos_le hon.previousEnd_le)⟩
  unfold Lexer.rereadQuoted
  split
  · rename_i quote tail hrest
    have hspan := (l.here.reaches_advance 1).trans
      (Cursor.reaches_span (· != quote) (l.here.advance 1))
    dsimp only
    split
    · obtain ⟨hon, hle⟩ := hnext (s := .fail _ _) hspan
      -- no quote ends it: it is invalid now, and stands where it did
      exact ⟨hon, hle, fun _ => ⟨h.reread (.of_isFree hspan rfl), rfl⟩⟩
    · obtain ⟨hon, hle⟩ := hnext (s := ⟨⟨.string, _, none⟩, _⟩)
        (hspan.trans (Cursor.reaches_advance _ 1))
      exact ⟨hon, hle, fun hkind => absurd rfl hkind⟩
  · exact ⟨h.next, h.pos_le_next, fun _ => ⟨h, rfl⟩⟩

/-- Where the text between tags ends at once and goes on with no brace, it goes on with a `<`. -/
theorem rest_of_textSign {c : Cursor} (hnil : (c.span fun x => x != '\x7b' && x != '<').1 = [])
    (hnext : (c.span fun x => x != '\x7b' && x != '<').2.rest ≠ [])
    (hbrace : ∀ cs, c.rest = '\x7b' :: cs → False) : ∃ cs, c.rest = '<' :: cs := by
  obtain ⟨hrest, -⟩ := c.passes_span fun x => x != '\x7b' && x != '<'
  obtain ⟨x, xs, hx⟩ := List.exists_cons_of_ne_nil hnext
  have hstop := (Cursor.spanFrom_stops (fun x => x != '\x7b' && x != '<') c.pos c.rest).2 x
    (by rw [← Cursor.span, hx]; rfl)
  rw [hnil, List.nil_append, hx] at hrest
  have hne : x ≠ '\x7b' := fun heq => hbrace xs (heq ▸ hrest)
  obtain rfl : x = '<' := by simpa [hne] using hstop
  exact ⟨xs, hrest⟩

theorem On.nextText (h : l.On text) : l.nextText.On text := by
  have hspan := Cursor.reaches_span (fun c => c != '\x7b' && c != '<') l.after
  have hfits : Scanned.Fits ⟨l.nextText.token, l.nextText.after⟩ l.after := by
    unfold Lexer.nextText
    dsimp only
    split
    · exact .of_isFree hspan rfl
    · rename_i hnext
      split
      · exact .of_isFree hspan rfl
      · rename_i hnil
        split
        · exact .of_isFree (Cursor.reaches_advance _ 1) rfl
        · rename_i hbrace
          -- neither a brace nor text is in hand, so a tag begins
          obtain ⟨cs, hcs⟩ := rest_of_textSign (by simpa using hnil) (by simpa using hnext) hbrace
          exact fits_less hcs
  exact {
    here := h.after
    fits := hfits
    size := h.size
    starts := ⟨l.after, [], h.after, rfl, .refl _, fun _ => ⟨false, .nil⟩⟩
    isPlace_previousEnd := ⟨l.after, h.after, rfl⟩
    previousEnd_le := Nat.le_refl _ }

theorem On.pos_le_nextText (h : l.On text) : l.pos ≤ l.nextText.pos := h.pos_le_endPos

end Lexer

end Phrasebook.Script
