import Phrasebook.Proofs.Script.Reach

/-!
# How strings and templates are written

What is read between the quotes of a string or a template depends on its characters and on the one
that follows them, but on nothing behind that. `StringBody` and `TemplateBody` are the texts that
may stand there, with the units that they stand for: such a text is read so wherever it stands, and
whatever is read is such a text.
-/

namespace Phrasebook.Script

open Cursor (Passes)
open Text (byteLength)

/-! ### Escapes -/

/-- The escape with the characters `esc` stands for `unit` when `next` follows. -/
def IsEscape (inTemplate : Bool) (esc : List Char) (unit : Option Nat) (next : Char) : Prop :=
  ∀ rest pos, escape? inTemplate ⟨esc ++ next :: rest, pos⟩ =
    some (unit, ⟨next :: rest, pos + byteLength esc⟩)

/-- The character in front of which a place is. The end of a text is as good as that of a line. -/
def nextChar (c : Cursor) : Char := c.rest.head?.getD '\r'

section

variable {c after : Cursor} {n value : Nat}

theorem head?_append_nextChar {cs : List Char} (h : c.Passes cs after) (rest : List Char) :
    (cs ++ nextChar after :: rest).head? = some (nextChar c) := by
  cases cs with
  | nil =>
    rw [nextChar, nextChar, h.1]
    rfl
  | cons x xs =>
    unfold nextChar
    rw [h.1]
    rfl

theorem nextChar_ne {x : Char} (h : ∀ xs, c.rest ≠ x :: xs) (hx : x ≠ '\r') : nextChar c ≠ x := by
  unfold nextChar
  cases hrest : c.rest with
  | nil => exact hx.symm
  | cons y ys =>
    rintro rfl
    exact h ys hrest

theorem octalValue?_nextChar (c : Cursor) :
    c.rest.head?.bind Text.octalValue? = Text.octalValue? (nextChar c) := by
  have hend : Text.octalValue? '\r' = none := by decide
  unfold nextChar
  cases c.rest with
  | nil => exact hend.symm
  | cons x xs => rfl

theorem hexDigits?_append {ds : List Char} (hds : Text.hexNumber? ds = some value)
    (rest : List Char) (pos : Nat) :
    hexDigits? ⟨ds ++ rest, pos⟩ ds.length = some (value, ⟨rest, pos + byteLength ds⟩) := by
  simp only [hexDigits?, List.take_left, hds, Cursor.advance_append, Option.bind_eq_bind,
    Option.bind_some]
  rw [if_pos]
  rw [List.length_append]
  exact Nat.le_add_right _ _

theorem exists_hexDigits (h : hexDigits? c n = some (value, after)) :
    ∃ cs, cs.length = n ∧ c.Passes cs after ∧ ∀ rest pos,
      hexDigits? ⟨cs ++ rest, pos⟩ n = some (value, ⟨rest, pos + byteLength cs⟩) := by
  simp only [hexDigits?, Option.bind_eq_bind, Option.bind_eq_some_iff] at h
  obtain ⟨v, hv, h⟩ := h
  split at h
  · rename_i hn
    obtain ⟨rfl, rfl⟩ := Prod.mk.inj (Option.some.inj h)
    obtain ⟨cs, pos⟩ := c
    have hlength : (cs.take n).length = n := List.length_take_of_le hn
    refine ⟨cs.take n, hlength, ?_, fun rest pos => ?_⟩
    · have hadvance := Cursor.advance_append (cs.take n) (cs.drop n) pos
      rw [List.take_append_drop, hlength] at hadvance
      rw [hadvance]
      exact ⟨(List.take_append_drop n cs).symm, rfl⟩
    · have hread := hexDigits?_append hv rest pos
      rwa [hlength] at hread
  · cases h

/-- The digits between braces, from the place behind the brace that opens them on. -/
def bracedDigits (c : Cursor) : List Char × Cursor := c.span fun x => (Text.hexValue? x).isSome

theorem unicodeEscape?_braced (cs : List Char) (pos : Nat) :
    unicodeEscape? ⟨'\x7b' :: cs, pos⟩ =
      (Text.hexNumber? (bracedDigits ⟨cs, pos + 1⟩).1).bind fun value =>
        match (bracedDigits ⟨cs, pos + 1⟩).2.rest with
        | '\x7d' :: _ =>
          if (bracedDigits ⟨cs, pos + 1⟩).1 ≠ [] ∧ value ≤ 0x10ffff then
            some (value, (bracedDigits ⟨cs, pos + 1⟩).2.advance 1)
          else none
        | _ => none :=
  rfl

theorem unicodeEscape?_unbraced {cs : List Char} (hcs : ∀ tail, cs ≠ '\x7b' :: tail) {pos : Nat} :
    unicodeEscape? ⟨cs, pos⟩ = hexDigits? ⟨cs, pos⟩ 4 := by
  unfold unicodeEscape?
  split
  · rename_i heq
    exact absurd heq (hcs _)
  · rfl

theorem exists_unicodeEscape (h : unicodeEscape? c = some (value, after)) :
    ∃ cs, c.Passes cs after ∧
      ∀ rest pos, unicodeEscape? ⟨cs ++ rest, pos⟩ = some (value, ⟨rest, pos + byteLength cs⟩) := by
  by_cases hbrace : ∃ tail, c.rest = '\x7b' :: tail
  · obtain ⟨tail, htail⟩ := hbrace
    obtain ⟨text, pos⟩ := c
    obtain rfl : text = '\x7b' :: tail := htail
    rw [unicodeEscape?_braced] at h
    have hpasses : Passes ⟨tail, pos + 1⟩ (bracedDigits ⟨tail, pos + 1⟩).1
      (bracedDigits ⟨tail, pos + 1⟩).2 := Cursor.passes_span _ _
    have hall := (Cursor.spanFrom_stops (fun x => (Text.hexValue? x).isSome) (pos + 1) tail).1
    change ∀ x ∈ (bracedDigits ⟨tail, pos + 1⟩).1, _ at hall
    generalize bracedDigits ⟨tail, pos + 1⟩ = digits at h hpasses hall
    obtain ⟨digits, ⟨rest, pos'⟩⟩ := digits
    obtain ⟨v, hv, h⟩ := Option.bind_eq_some_iff.mp h
    split at h
    · rename_i close hclose
      obtain rfl : rest = '\x7d' :: close := hclose
      simp only [Option.ite_none_right_eq_some, Option.some.injEq, Prod.mk.injEq] at h
      obtain ⟨hvalid, rfl, rfl⟩ := h
      refine ⟨'\x7b' :: (digits ++ ['\x7d']), ?_, fun rest pos => ?_⟩
      · exact (Cursor.passes_cons _ _ _).trans (hpasses.trans (Cursor.passes_cons _ _ _))
      · have hspan : bracedDigits ⟨digits ++ '\x7d' :: rest, pos + 1⟩ = _ :=
          Cursor.span_append hall (by decide) (pos + 1) rest
        rw [List.cons_append, List.append_assoc, List.singleton_append, unicodeEscape?_braced,
          hspan, hv, Option.bind_some]
        simp only [if_pos hvalid]
        simp [byteLength, Text.byteLength_append, Nat.add_assoc, Cursor.advance]
        rfl
    · cases h
  · rw [show c = ⟨c.rest, c.pos⟩ from rfl,
      unicodeEscape?_unbraced fun tail htail => hbrace ⟨tail, htail⟩] at h
    obtain ⟨cs, hlength, hcs, hread⟩ := exists_hexDigits h
    refine ⟨cs, hcs, fun rest pos => ?_⟩
    rw [unicodeEscape?_unbraced, hread]
    intro tail heq
    -- four digits in hand cannot begin with a brace, since the ones that were read did not
    cases cs with
    | nil => cases hlength
    | cons x xs =>
      obtain ⟨rfl, -⟩ := List.cons.inj heq
      exact hbrace ⟨_, hcs.1⟩

theorem exists_octalEscape (first : Nat) (c : Cursor) : ∃ cs,
    c.Passes cs (octalEscape first c).2 ∧ ∀ rest pos,
      octalEscape first ⟨cs ++ nextChar (octalEscape first c).2 :: rest, pos⟩ =
        ((octalEscape first c).1,
          ⟨nextChar (octalEscape first c).2 :: rest, pos + byteLength cs⟩) := by
  obtain ⟨text, pos⟩ := c
  fun_cases octalEscape first ⟨text, pos⟩ with
  | case1 a tail hrest ha =>
    -- what follows is no digit
    obtain rfl : text = a :: tail := hrest
    exact ⟨[], .refl _, fun rest pos => by simp [octalEscape, nextChar, ha, byteLength]⟩
  | case2 a x ha two b tail y hb hlt hrest =>
    obtain rfl : text = a :: b :: tail := hrest
    -- two digits follow, unless their value would be too great
    refine ⟨[a, b], ⟨rfl, ?_⟩, fun rest pos => ?_⟩
    · simp [Cursor.advance, byteLength, Nat.add_assoc]
    · simp [octalEscape, ha, hb, two, hlt, Cursor.advance, byteLength, Nat.add_assoc]
  | case3 a x ha two b tail y hb hlt hrest =>
    obtain rfl : text = a :: b :: tail := hrest
    refine ⟨[a], ⟨rfl, rfl⟩, fun rest pos => ?_⟩
    simp [octalEscape, nextChar, ha, hb, two, hlt, Cursor.advance, byteLength]
  | case4 a x ha two b tail hb hrest =>
    obtain rfl : text = a :: b :: tail := hrest
    refine ⟨[a], ⟨rfl, rfl⟩, fun rest pos => ?_⟩
    simp [octalEscape, nextChar, ha, hb, two, Cursor.advance, byteLength]
  | case5 a x ha two hrest =>
    obtain rfl : text = [a] := hrest
    refine ⟨[a], ⟨rfl, rfl⟩, fun rest pos => ?_⟩
    have hline : Text.octalValue? '\r' = none := by decide
    simp [octalEscape, nextChar, ha, hline, two, Cursor.advance, byteLength]
  | case6 hrest =>
    obtain rfl : text = [] := hrest
    have hline : Text.octalValue? '\r' = none := by decide
    exact ⟨[], .refl _, fun rest pos => by simp [octalEscape, nextChar, hline, byteLength]⟩

/-- Escapes of one character and octal ones. -/
theorem escape?_cons {inTemplate : Bool} {x : Char} (hx : x ≠ 'x') (hu : x ≠ 'u')
    {tail : List Char} (hline : x = '\r' → tail.head? ≠ some '\n') (pos : Nat) :
    escape? inTemplate ⟨x :: tail, pos⟩ =
      if isLineEnd x then some (none, ⟨tail, pos + x.utf8Size⟩)
      else
        match Text.octalValue? x with
        | some d =>
          if d = 0 ∧ (tail.head?.bind Text.octalValue?).isNone then
            some (some 0, ⟨tail, pos + x.utf8Size⟩)
          else if inTemplate then none
          else
            some (some (octalEscape d ⟨tail, pos + x.utf8Size⟩).1,
              (octalEscape d ⟨tail, pos + x.utf8Size⟩).2)
        | none => some ((simpleEscape? x).getD x.toNat, ⟨tail, pos + x.utf8Size⟩) := by
  unfold escape?
  dsimp only
  split
  · rename_i heq
    cases heq
  · rename_i heq
    obtain ⟨rfl, rfl⟩ := List.cons.inj heq
    exact absurd rfl (hline rfl)
  · rename_i heq
    exact absurd (List.cons.inj heq).1 hx
  · rename_i heq
    exact absurd (List.cons.inj heq).1 hu
  · rename_i heq
    obtain ⟨rfl, rfl⟩ := List.cons.inj heq
    rfl

/-- An escape that begins with `x` and goes on with `cs`. -/
theorem isEscape_cons {inTemplate : Bool} {unit : Option Nat} {x : Char} {tail cs : List Char}
    {pos : Nat} (hcs : Passes ⟨tail, pos + x.utf8Size⟩ cs after)
    (hread : ∀ rest pos, escape? inTemplate ⟨x :: (cs ++ nextChar after :: rest), pos⟩ =
      some (unit, ⟨nextChar after :: rest, pos + x.utf8Size + byteLength cs⟩)) :
    ∃ esc, esc ≠ [] ∧ Passes ⟨x :: tail, pos⟩ esc after ∧
      IsEscape inTemplate esc unit (nextChar after) := by
  refine ⟨x :: cs, by simp, (Cursor.passes_cons x tail pos).trans hcs, fun rest pos => ?_⟩
  rw [List.cons_append, hread, byteLength, ← Nat.add_assoc]

/-- Escapes of one character and octal ones are read as the same ones. -/
theorem exists_isEscape_cons {inTemplate : Bool} {unit : Option Nat} {x : Char}
    {tail : List Char} {pos : Nat} (hx : x ≠ 'x') (hu : x ≠ 'u')
    (hline : x = '\r' → tail.head? ≠ some '\n')
    (h : escape? inTemplate ⟨x :: tail, pos⟩ = some (unit, after)) :
    ∃ esc, esc ≠ [] ∧ Passes ⟨x :: tail, pos⟩ esc after ∧
      IsEscape inTemplate esc unit (nextChar after) := by
  -- no line feed comes behind a carriage return where there was none
  have hline' {cs : List Char} (hcs : Passes ⟨tail, pos + x.utf8Size⟩ cs after)
      (rest : List Char) : x = '\r' → (cs ++ nextChar after :: rest).head? ≠ some '\n' := by
    intro heq hhead
    rw [head?_append_nextChar hcs] at hhead
    refine nextChar_ne (fun xs (hxs : tail = _) => ?_) (by decide) (Option.some.inj hhead)
    exact hline heq (by rw [hxs]; rfl)
  rw [escape?_cons hx hu hline] at h
  split at h
  · rename_i hends
    obtain ⟨rfl, rfl⟩ := Prod.mk.inj (Option.some.inj h)
    refine isEscape_cons (.refl _) fun rest pos => ?_
    rw [escape?_cons hx hu (hline' (.refl _) rest), if_pos hends]
    rfl
  · rename_i hends
    split at h
    · rename_i d hd
      split at h
      · rename_i hzero
        obtain ⟨rfl, rfl⟩ := Prod.mk.inj (Option.some.inj h)
        refine isEscape_cons (.refl _) fun rest pos => ?_
        rw [escape?_cons hx hu (hline' (.refl _) rest), if_neg hends, hd]
        dsimp only
        rw [if_pos, List.nil_append]
        · rfl
        · refine ⟨hzero.1, ?_⟩
          rw [head?_append_nextChar (.refl _), Option.bind_some, ← octalValue?_nextChar]
          exact hzero.2
      · rename_i hzero
        split at h
        · cases h
        · rename_i htemplate
          obtain ⟨rfl, rfl⟩ := Prod.mk.inj (Option.some.inj h)
          obtain ⟨cs, hcs, hread⟩ := exists_octalEscape d ⟨tail, pos + x.utf8Size⟩
          refine isEscape_cons hcs fun rest pos => ?_
          rw [escape?_cons hx hu (hline' hcs rest), if_neg hends, hd]
          dsimp only
          rw [if_neg, if_neg htemplate, hread]
          rw [head?_append_nextChar hcs, Option.bind_some, ← octalValue?_nextChar]
          exact hzero
    · rename_i hd
      obtain ⟨rfl, rfl⟩ := Prod.mk.inj (Option.some.inj h)
      refine isEscape_cons (.refl _) fun rest pos => ?_
      rw [escape?_cons hx hu (hline' (.refl _) rest), if_neg hends, hd]
      rfl

/-- An escape is read as the same one wherever it stands in front of the same character. -/
theorem exists_isEscape {inTemplate : Bool} {unit : Option Nat}
    (h : escape? inTemplate c = some (unit, after)) :
    ∃ esc, esc ≠ [] ∧ c.Passes esc after ∧ IsEscape inTemplate esc unit (nextChar after) := by
  obtain ⟨text, pos⟩ := c
  have hescape := h
  unfold escape? at h
  dsimp only at h
  split at h
  · cases h
  · obtain ⟨rfl, rfl⟩ := Prod.mk.inj (Option.some.inj h)
    exact ⟨['\r', '\n'], by simp, ⟨rfl, rfl⟩, fun rest pos => rfl⟩
  · obtain ⟨⟨v, d⟩, hv, heq⟩ := Option.map_eq_some_iff.mp h
    obtain ⟨rfl, rfl⟩ := Prod.mk.inj heq
    obtain ⟨cs, -, hcs, hread⟩ := exists_hexDigits hv
    refine isEscape_cons hcs fun rest pos => ?_
    change (hexDigits? ⟨cs ++ _ :: rest, pos + 1⟩ 2).map _ = _
    rw [hread]
    rfl
  · obtain ⟨⟨v, d⟩, hv, heq⟩ := Option.map_eq_some_iff.mp h
    obtain ⟨rfl, rfl⟩ := Prod.mk.inj heq
    obtain ⟨cs, hcs, hread⟩ := exists_unicodeEscape hv
    refine isEscape_cons hcs fun rest pos => ?_
    change (unicodeEscape? ⟨cs ++ _ :: rest, pos + 1⟩).map _ = _
    rw [hread]
    rfl
  · rename_i x tail hcr hx hu
    -- a carriage return in front of a line feed has been dealt with
    refine exists_isEscape_cons hx hu (fun heq hhead => ?_) hescape
    obtain ⟨ys, rfl⟩ := List.head?_eq_some_iff.mp hhead
    exact hcr _ heq rfl

end

/-! ### What stands between the quotes -/

/-- When `next` follows, `scan` reads on over the characters `body`, which stand for `units`. -/
def ReadsOver (scan : Nat → List Nat → Cursor → Scanned) (body : List Char) (units : List Nat)
    (next : Char) : Prop :=
  ∃ k ≤ body.length, ∀ n read rest pos, scan (n + k) read ⟨body ++ next :: rest, pos⟩ =
    scan n (units.reverse ++ read) ⟨next :: rest, pos + byteLength body⟩

namespace ReadsOver

variable {scan : Nat → List Nat → Cursor → Scanned} {body : List Char} {units : List Nat}
  {next : Char}

theorem nil : ReadsOver scan [] [] next := ⟨0, Nat.le_refl _, fun _ _ _ _ => rfl⟩

theorem cons (piece : List Char) (units' : List Nat) (hne : piece ≠ []) (hpiece : ∀ n read rest pos,
      scan (n + 1) read ⟨piece ++ (body ++ next :: rest), pos⟩ =
        scan n (units'.reverse ++ read) ⟨body ++ next :: rest, pos + byteLength piece⟩)
    (h : ReadsOver scan body units next) :
    ReadsOver scan (piece ++ body) (units' ++ units) next := by
  obtain ⟨k, hk, hbody⟩ := h
  have := List.length_pos_iff.mpr hne
  refine ⟨k + 1, by rw [List.length_append]; omega, fun n read rest pos => ?_⟩
  rw [List.append_assoc, ← Nat.add_assoc, hpiece, hbody, List.reverse_append, List.append_assoc,
    Text.byteLength_append, Nat.add_assoc]

/-- With enough steps the reading gets to the character behind. -/
theorem exists_scan (h : ReadsOver scan body units next) {n : Nat} (hn : body.length < n) :
    ∃ m, ∀ read rest pos, scan n read ⟨body ++ next :: rest, pos⟩ =
      scan (m + 1) (units.reverse ++ read) ⟨next :: rest, pos + byteLength body⟩ := by
  obtain ⟨k, hk, hbody⟩ := h
  refine ⟨n - k - 1, fun read rest pos => ?_⟩
  rw [← hbody, show n - k - 1 + 1 + k = n by omega]

end ReadsOver

/-- What stands behind the opening quote of a string. -/
def StringBody (quote : Char) (body : List Char) (units : List Nat) (next : Char) : Prop :=
  ReadsOver (scanString quote) body units next

/-- What stands in a template without substitutions. -/
def TemplateBody (body : List Char) (units : List Nat) : Prop :=
  ∀ start, ReadsOver (templatePiece start .templateWhole .templateHead · · none) body units '\x60'

section Body

variable {quote next : Char} {body esc : List Char} {units : List Nat} {unit : Option Nat}

theorem StringBody.char {x : Char} (hquote : x ≠ quote) (hline : x ≠ '\n' ∧ x ≠ '\r')
    (hslash : x ≠ '\\') (h : StringBody quote body units next) :
    StringBody quote (x :: body) (x.toNat :: units) next := by
  refine ReadsOver.cons [x] [x.toNat] (by simp) (fun n read rest pos => ?_) h
  simp [scanString, hquote, hline, hslash, Cursor.advance, byteLength]

theorem scanString_escape (hquote : quote ≠ '\\') {cs : List Char} {pos : Nat} {after : Cursor}
    (h : escape? false ⟨cs, pos + 1⟩ = some (unit, after)) (n : Nat) (read : List Nat) :
    scanString quote (n + 1) read ⟨'\\' :: cs, pos⟩ =
      scanString quote n (unit.toList.reverse ++ read) after := by
  have hsize : '\\'.utf8Size = 1 := rfl
  cases unit <;> simp [scanString, hquote.symm, Cursor.advance, hsize, h]

theorem templatePiece_escape {start : Nat} {whole head : Kind} {cs : List Char} {pos : Nat}
    {after : Cursor} (h : escape? true ⟨cs, pos + 1⟩ = some (unit, after)) (n : Nat)
    (read : List Nat) : templatePiece start whole head (n + 1) read none ⟨'\\' :: cs, pos⟩ =
      templatePiece start whole head n (unit.toList.reverse ++ read) none after := by
  have hsize : '\\'.utf8Size = 1 := rfl
  cases unit <;> simp [templatePiece, Cursor.advance, hsize, h]

theorem StringBody.escape (hquote : quote ≠ '\\') {next' : Char}
    (hesc : IsEscape false esc unit next')
    (hnext : ∀ rest, (body ++ next :: rest).head? = some next')
    (h : StringBody quote body units next) :
    StringBody quote ('\\' :: (esc ++ body)) (unit.toList ++ units) next := by
  refine ReadsOver.cons ('\\' :: esc) unit.toList (by simp) (fun n read rest pos => ?_) h
  obtain ⟨tail, htail⟩ := List.head?_eq_some_iff.mp (hnext rest)
  rw [htail, List.cons_append, scanString_escape hquote (hesc tail (pos + 1)), byteLength,
    ← Nat.add_assoc]
  rfl

theorem TemplateBody.escape {next' : Char} (hesc : IsEscape true esc unit next')
    (hnext : ∀ rest, (body ++ '\x60' :: rest).head? = some next') (h : TemplateBody body units) :
    TemplateBody ('\\' :: (esc ++ body)) (unit.toList ++ units) := by
  intro start
  refine ReadsOver.cons ('\\' :: esc) unit.toList (by simp) (fun n read rest pos => ?_) (h start)
  obtain ⟨tail, htail⟩ := List.head?_eq_some_iff.mp (hnext rest)
  rw [htail, List.cons_append, templatePiece_escape (hesc tail (pos + 1)), byteLength,
    ← Nat.add_assoc]
  rfl

theorem TemplateBody.char {x : Char} (hquote : x ≠ '\x60') (hline : x ≠ '\r') (hslash : x ≠ '\\')
    (hdollar : x = '$' → ∀ rest, (body ++ '\x60' :: rest).head? ≠ some '\x7b')
    (h : TemplateBody body units) : TemplateBody (x :: body) (x.toNat :: units) := by
  intro start
  refine ReadsOver.cons [x] [x.toNat] (by simp) (fun n read rest pos => ?_) (h start)
  rw [List.singleton_append, templatePiece]
  dsimp only
  split
  · rename_i heq
    cases heq
  · rename_i heq
    exact absurd (List.cons.inj heq).1 hquote
  · rename_i heq
    -- a dollar sign begins a substitution only in front of a brace
    obtain ⟨rfl, htail⟩ := List.cons.inj heq
    exact absurd (by rw [htail]; rfl) (hdollar rfl rest)
  · rename_i heq
    exact absurd (List.cons.inj heq).1 hline
  · rename_i heq
    exact absurd (List.cons.inj heq).1 hline
  · rename_i heq
    exact absurd (List.cons.inj heq).1 hslash
  · rename_i heq
    obtain ⟨rfl, rfl⟩ := List.cons.inj heq
    rfl

/-- A line that ends with a carriage return and a line feed. -/
theorem TemplateBody.crlf (h : TemplateBody body units) :
    TemplateBody ('\r' :: '\n' :: body) (10 :: units) := by
  intro start
  exact ReadsOver.cons ['\r', '\n'] [10] (by simp) (fun n read rest pos => rfl) (h start)

theorem TemplateBody.cr (hnext : ∀ rest, (body ++ '\x60' :: rest).head? ≠ some '\n')
    (h : TemplateBody body units) : TemplateBody ('\r' :: body) (10 :: units) := by
  intro start
  refine ReadsOver.cons ['\r'] [10] (by simp) (fun n read rest pos => ?_) (h start)
  have hcr : templatePiece start .templateWhole .templateHead (n + 1) read none
      ⟨'\r' :: (body ++ '\x60' :: rest), pos⟩ = templatePiece start .templateWhole .templateHead n
        (10 :: read) none ⟨body ++ '\x60' :: rest, pos + 1⟩ := by
    rw [templatePiece]
    dsimp only
    split <;> rename_i heq <;> try cases heq
    · rename_i tail
      exact absurd (by rw [(List.cons.inj heq).2]; rfl) (hnext rest)
    · rfl
    · rename_i hne _ _ _
      exact absurd rfl hne
  exact hcr

end Body

/-! ### What is read is such a text -/

section Scan

variable {quote : Char} {n : Nat} {units : List Nat} {c : Cursor}

/-- What an escape is passed with, and what follows it keeps its next character. -/
theorem exists_slash {inTemplate : Bool} {tail : List Char} {unit : Option Nat} {after : Cursor}
    (hc : c.rest = '\\' :: tail) (h : escape? inTemplate (c.advance 1) = some (unit, after)) :
    ∃ esc, c.Passes ('\\' :: esc) after ∧ after.rest.length < tail.length ∧
      IsEscape inTemplate esc unit (nextChar after) := by
  obtain ⟨rest, pos⟩ := c
  obtain rfl : rest = '\\' :: tail := hc
  obtain ⟨esc, hne, hesc, hread⟩ := exists_isEscape h
  have hpos := List.length_pos_iff.mpr hne
  have hlength := congrArg List.length hesc.1
  rw [List.length_append] at hlength
  change tail.length = _ at hlength
  exact ⟨esc, (Cursor.passes_cons '\\' tail pos).trans hesc, by omega, hread⟩

/-- From `c` on stands the rest of a string, which `s` is read as. It goes up to a quote or up to
the end of a line. In front of `c` the units `read` have been read. -/
def StringEnds (quote : Char) (read : List Nat) (c : Cursor) (s : Scanned) : Prop :=
  ∃ body us d, c.Passes body d ∧ StringBody quote body us (nextChar d) ∧
    s.token = ⟨.string, textOfUnits (read.reverse ++ us), none⟩ ∧
    (d.Passes [quote] s.after ∧ nextChar d = quote ∨
      d = s.after ∧ (nextChar d = '\n' ∨ nextChar d = '\r'))

theorem StringEnds.cons (piece : List Nat) {read : List Nat} {cs : List Char} {c' : Cursor}
    {s : Scanned} (h : StringEnds quote (piece.reverse ++ read) c' s) (hcs : c.Passes cs c')
    (hbody : ∀ {body us next}, (∀ rest, (body ++ next :: rest).head? = some (nextChar c')) →
      StringBody quote body us next → StringBody quote (cs ++ body) (piece ++ us) next) :
    StringEnds quote read c s := by
  obtain ⟨body, us, d, hpasses, hread, htoken, hend⟩ := h
  refine ⟨cs ++ body, piece ++ us, d, hcs.trans hpasses,
    hbody (head?_append_nextChar hpasses) hread, ?_, hend⟩
  rwa [List.reverse_append, List.reverse_reverse, List.append_assoc] at htoken

theorem stringEnds (hquote : quote ≠ '\\') (hn : c.rest.length < n)
    (hkind : (scanString quote n units c).token.kind = .string) :
    StringEnds quote units c (scanString quote n units c) := by
  fun_induction scanString quote n units c with
  | case1 => omega
  | case2 n units c hc =>
    -- the text ends
    refine ⟨[], [], c, .refl c, .nil, by simp, .inr ⟨rfl, .inr ?_⟩⟩
    rw [nextChar, hc]
    rfl
  | case3 n units c x tail hc hx =>
    obtain ⟨rest, pos⟩ := c
    obtain rfl : rest = x :: tail := hc
    -- the quote that ends the string
    obtain rfl : x = quote := eq_of_beq hx
    exact ⟨[], [], _, .refl _, .nil, by simp, .inl ⟨Cursor.passes_cons x tail pos, rfl⟩⟩
  | case4 n units c x tail hc hx hline =>
    -- a line that ends before the string does
    refine ⟨[], [], c, .refl c, .nil, by simp, .inr ⟨rfl, ?_⟩⟩
    rw [nextChar, hc]
    simpa using hline
  | case5 n units c x tail hc hx hline hslash u after hescape ih =>
    obtain rfl : x = '\\' := eq_of_beq hslash
    obtain ⟨esc, hesc, hlt, hesc'⟩ := exists_slash hc hescape
    rw [hc] at hn
    exact (ih (Nat.lt_trans hlt (Nat.lt_of_succ_lt_succ hn)) hkind).cons [u] hesc
      fun hhead hread => hread.escape hquote hesc' hhead
  -- an escaped line end is passed and stands for nothing
  | case6 n units c x tail hc hx hline hslash after hescape ih =>
    obtain rfl : x = '\\' := eq_of_beq hslash
    obtain ⟨esc, hesc, hlt, hesc'⟩ := exists_slash hc hescape
    rw [hc] at hn
    exact (ih (Nat.lt_trans hlt (Nat.lt_of_succ_lt_succ hn)) hkind).cons [] hesc
      fun hhead hread => hread.escape hquote hesc' hhead
  -- an escape without a value is no string
  | case7 => cases hkind
  | case8 n units c x tail hc hx hline hslash ih =>
    obtain ⟨rest, pos⟩ := c
    obtain rfl : rest = x :: tail := hc
    exact (ih (Nat.lt_of_succ_lt_succ hn) hkind).cons [x.toNat] (Cursor.passes_cons x tail pos)
      fun _ hread => hread.char (by simpa using hx) (by simpa using hline) (by simpa using hslash)

/-- From `c` on stands the rest of a template without substitutions that has the value `text`, and
behind it is `after`. In front of `c` the units `read` have been read. -/
def TemplateEnds (read : List Nat) (c after : Cursor) (text : String) : Prop :=
  ∃ body us d, c.Passes body d ∧ nextChar d = '\x60' ∧ d.Passes ['\x60'] after ∧
    TemplateBody body us ∧ textOfUnits (read.reverse ++ us) = some text

theorem TemplateEnds.cons (piece : List Nat) {read : List Nat} {cs : List Char}
    {c' after : Cursor} {text : String}
    (h : TemplateEnds (piece.reverse ++ read) c' after text) (hcs : c.Passes cs c')
    (hbody : ∀ {body us}, (∀ rest, (body ++ '\x60' :: rest).head? = some (nextChar c')) →
      TemplateBody body us → TemplateBody (cs ++ body) (piece ++ us)) :
    TemplateEnds read c after text := by
  obtain ⟨body, us, d, hpasses, hnext, hend, hread, hvalue⟩ := h
  refine ⟨cs ++ body, piece ++ us, d, hcs.trans hpasses, hnext, hend,
    hbody (fun rest => hnext ▸ head?_append_nextChar hpasses rest) hread, ?_⟩
  rwa [List.reverse_append, List.reverse_reverse, List.append_assoc] at hvalue

/-- A template that is read to its end without a substitution and has a value. -/
theorem templateEnds {start : Nat} {fault : Option Nat} {text : String}
    (hn : c.rest.length < n)
    (hkind : (templatePiece start .templateWhole .templateHead n units fault c).token.kind =
      .templateWhole)
    (htext : (templatePiece start .templateWhole .templateHead n units fault c).token.text =
      some text) :
    fault = none ∧ TemplateEnds units c
      (templatePiece start .templateWhole .templateHead n units fault c).after text := by
  fun_induction templatePiece start .templateWhole .templateHead n units fault c with
  -- the text ends, or a substitution begins
  | case1 | case2 | case4 => cases hkind
  | case3 n units fault c value tail hc =>
    obtain ⟨rest, pos⟩ := c
    obtain rfl : rest = '\x60' :: tail := hc
    cases fault with
    | some place => cases htext
    | none =>
      refine ⟨rfl, [], [], _, .refl _, rfl, Cursor.passes_cons '\x60' tail pos, fun _ => .nil, ?_⟩
      rw [List.append_nil]
      exact htext
  | case5 n units fault c tail hc ih =>
    obtain ⟨rest, pos⟩ := c
    obtain rfl : rest = '\r' :: '\n' :: tail := hc
    obtain ⟨hfault, h⟩ := ih (Nat.lt_of_succ_lt (Nat.lt_of_succ_lt_succ hn)) hkind htext
    have hcs : Passes ⟨'\r' :: '\n' :: tail, pos⟩ ['\r', '\n'] ⟨tail, pos + 1 + 1⟩ := ⟨rfl, rfl⟩
    exact ⟨hfault, h.cons [10] hcs fun _ hread => hread.crlf⟩
  | case6 n units fault c tail hne hc ih =>
    obtain ⟨rest, pos⟩ := c
    obtain rfl : rest = '\r' :: tail := hc
    obtain ⟨hfault, h⟩ := ih (Nat.lt_of_succ_lt_succ hn) hkind htext
    refine ⟨hfault, h.cons [10] (Cursor.passes_cons '\r' tail pos) fun hhead hread =>
      hread.cr fun rest hline => ?_⟩
    -- a return that stands alone is followed by no line feed
    exact nextChar_ne hne (by decide) (Option.some.inj ((hhead rest).symm.trans hline))
  | case7 n units fault c tail hc u after hescape ih =>
    obtain ⟨esc, hesc, hlt, hesc'⟩ := exists_slash hc hescape
    rw [hc] at hn
    obtain ⟨hfault, h⟩ := ih (Nat.lt_trans hlt (Nat.lt_of_succ_lt_succ hn)) hkind htext
    exact ⟨hfault, h.cons [u] hesc fun hhead hread => hread.escape hesc' hhead⟩
  | case8 n units fault c tail hc after hescape ih =>
    obtain ⟨esc, hesc, hlt, hesc'⟩ := exists_slash hc hescape
    rw [hc] at hn
    obtain ⟨hfault, h⟩ := ih (Nat.lt_trans hlt (Nat.lt_of_succ_lt_succ hn)) hkind htext
    exact ⟨hfault, h.cons [] hesc fun hhead hread => hread.escape hesc' hhead⟩
  | case9 n units fault c tail hc hescape ih =>
    obtain ⟨rest, pos⟩ := c
    obtain rfl : rest = '\\' :: tail := hc
    -- an escape without a value is kept as a fault, so the template has none
    obtain ⟨hfault, -⟩ := ih (Nat.lt_of_succ_lt_succ hn) hkind htext
    cases fault <;> cases hfault
  | case10 n units fault c x tail hquote hdollar hcr hline hslash hc ih =>
    obtain ⟨rest, pos⟩ := c
    obtain rfl : rest = x :: tail := hc
    obtain ⟨hfault, h⟩ := ih (Nat.lt_of_succ_lt_succ hn) hkind htext
    refine ⟨hfault, h.cons [x.toNat] (Cursor.passes_cons x tail pos) fun hhead hread =>
      hread.char hquote hline hslash fun hx rest hbrace => ?_⟩
    exact nextChar_ne (fun xs => hdollar xs hx) (by decide)
      (Option.some.inj ((hhead rest).symm.trans hbrace))

end Scan

/-! ### Literals -/

/-- The characters of a literal with the value `text`, whatever follows it or, if the closing quote
of a string is missing, when the line end `follow` follows it. -/
inductive LiteralText : Option Char → List Char → Kind → String → Prop
  | string {quote : Char} {body : List Char} {units : List Nat} {text : String}
      (hquote : quote = '"' ∨ quote = '\'') (hbody : StringBody quote body units quote)
      (htext : textOfUnits units = some text) :
      LiteralText none (quote :: (body ++ [quote])) .string text
  | openString {quote lineEnd : Char} {body : List Char} {units : List Nat} {text : String}
      (hquote : quote = '"' ∨ quote = '\'') (hline : lineEnd = '\n' ∨ lineEnd = '\r')
      (hbody : StringBody quote body units lineEnd) (htext : textOfUnits units = some text) :
      LiteralText (some lineEnd) (quote :: body) .string text
  | template {body : List Char} {units : List Nat} {text : String} (hbody : TemplateBody body units)
      (htext : textOfUnits units = some text) :
      LiteralText none ('\x60' :: (body ++ ['\x60'])) .templateWhole text

namespace LiteralText

variable {follow : Option Char} {cs : List Char} {kind : Kind} {text : String}

theorem exists_cons (h : LiteralText follow cs kind text) :
    ∃ x xs, cs = x :: xs ∧ (x = '"' ∨ x = '\'' ∨ x = '\x60') := by
  cases h with
  | string hquote => exact ⟨_, _, rfl, hquote.imp_right .inl⟩
  | openString hquote => exact ⟨_, _, rfl, hquote.imp_right .inl⟩
  | template => exact ⟨_, _, rfl, .inr (.inr rfl)⟩

theorem kind_cases (h : LiteralText follow cs kind text) :
    kind = .string ∨ kind = .templateWhole := by
  cases h with
  | string | openString => exact .inl rfl
  | template => exact .inr rfl

theorem isLineEnd_follow (h : LiteralText follow cs kind text) :
    ∀ x ∈ follow, x = '\n' ∨ x = '\r' := by
  cases h with
  | openString _ hline =>
    intro x hx
    obtain rfl := Option.some.inj hx
    exact hline
  | _ => simp

/-- A literal is read as such wherever it stands. -/
theorem scanToken_eq (h : LiteralText follow cs kind text) {n : Nat} (hn : cs.length < n)
    {rest : List Char} (hrest : ∀ x ∈ follow, rest.head? = some x) (pos : Nat) :
    scanToken n ⟨cs ++ rest, pos⟩ = ⟨⟨kind, some text, none⟩, ⟨rest, pos + byteLength cs⟩⟩ := by
  have hstring {quote : Char} (hquote : quote = '"' ∨ quote = '\'') (cs : List Char) :
      scanToken n ⟨quote :: cs, pos⟩ = scanString quote n [] ⟨cs, pos + quote.utf8Size⟩ := by
    rcases hquote with rfl | rfl <;> rfl
  cases h with
  | @string quote body units text hquote hbody htext =>
    rw [List.length_cons, List.length_append] at hn
    obtain ⟨m, hm⟩ := ReadsOver.exists_scan hbody (n := n) (by omega)
    rw [List.cons_append, List.append_assoc, hstring hquote, List.singleton_append, hm, scanString]
    simp only [beq_self_eq_true, if_true, List.append_nil, List.reverse_reverse, htext]
    simp [Cursor.advance, byteLength, Text.byteLength_append, Nat.add_assoc]
  | @openString quote lineEnd body units text hquote hline hbody htext =>
    obtain ⟨tail, rfl⟩ := List.head?_eq_some_iff.mp (hrest lineEnd rfl)
    obtain ⟨m, hm⟩ := ReadsOver.exists_scan hbody (Nat.lt_of_succ_lt hn)
    have hne : (lineEnd == quote) = false := by
      rcases hquote with rfl | rfl <;> rcases hline with rfl | rfl <;> rfl
    have hends : (lineEnd == '\n' || lineEnd == '\r') = true := by
      rcases hline with rfl | rfl <;> rfl
    rw [List.cons_append, hstring hquote, hm, scanString]
    simp only [hne, hends, if_true, List.append_nil, List.reverse_reverse, htext]
    simp [byteLength, Nat.add_assoc]
  | @template body units text hbody htext =>
    rw [List.length_cons, List.length_append] at hn
    obtain ⟨m, hm⟩ := ReadsOver.exists_scan (hbody pos) (n := n) (by omega)
    have htemplate (cs : List Char) : scanToken n ⟨'\x60' :: cs, pos⟩ =
        templatePiece pos .templateWhole .templateHead n [] none ⟨cs, pos + 1⟩ := rfl
    rw [List.cons_append, List.append_assoc, htemplate, List.singleton_append, hm, templatePiece]
    simp [htext, Cursor.advance, byteLength, Text.byteLength_append, Nat.add_assoc]
    rfl

end LiteralText

/-- The token that is read at the place `c` is a literal, if it has a value. -/
def Scanned.IsLiteral (s : Scanned) (c : Cursor) : Prop :=
  ∀ text ∈ s.token.text, ∃ follow cs, LiteralText follow cs s.token.kind text ∧
    c.Passes cs s.after ∧ ∀ x ∈ follow, nextChar s.after = x

theorem isLiteral_scanString {quote : Char} (hquote : quote = '"' ∨ quote = '\'')
    {tail : List Char} {pos n : Nat} (hn : tail.length < n)
    (hkind : (scanString quote n [] ⟨tail, pos + quote.utf8Size⟩).token.kind = .string) :
    (scanString quote n [] ⟨tail, pos + quote.utf8Size⟩).IsLiteral ⟨quote :: tail, pos⟩ := by
  intro text htext
  have hslash : quote ≠ '\\' := by rcases hquote with rfl | rfl <;> decide
  have hopen := Cursor.passes_cons quote tail pos
  obtain ⟨body, us, d, hbody, hread, htoken, ⟨hclose, hnext⟩ | ⟨rfl, hnext⟩⟩ :=
    stringEnds hslash hn hkind
  all_goals
    rw [htoken, List.reverse_nil, List.nil_append] at htext
    rw [htoken]
  · rw [hnext] at hread
    exact ⟨none, _, .string hquote hread htext, hopen.trans (hbody.trans hclose), by simp⟩
  · refine ⟨_, _, .openString hquote hnext hread htext, hopen.trans hbody, fun x hx => ?_⟩
    exact Option.some.inj hx

theorem isLiteral_templatePiece {tail : List Char} {pos n : Nat} (hn : tail.length < n)
    (hkind : (templatePiece pos .templateWhole .templateHead n [] none ⟨tail, pos + 1⟩).token.kind =
      .templateWhole) :
    (templatePiece pos .templateWhole .templateHead n [] none ⟨tail, pos + 1⟩).IsLiteral
      ⟨'\x60' :: tail, pos⟩ := by
  intro text htext
  obtain ⟨-, body, us, d, hbody, hnext, hclose, hread, hvalue⟩ :=
    templateEnds hn hkind htext
  rw [hkind]
  exact ⟨none, _, .template hread hvalue,
    (Cursor.passes_cons '\x60' tail pos).trans (hbody.trans hclose), by simp⟩

end Phrasebook.Script
