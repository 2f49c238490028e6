import Phrasebook.Proofs.Script.Reach

/-!
# What stands between two tokens

`GapText` are the texts that the lexer skips between two tokens: blanks and comments in any number.
What it skips is such a text (`Gap.exists_gapText_run`), and such a text in front of a token is
skipped to its end (`Gap.run_append`). A line comment has to end inside the gap, else what follows
the gap would belong to the comment.
-/

namespace Phrasebook.Script

open Cursor (Passes)
open Text (byteLength)

/-! ### Block comments -/

/-- What a block comment is found to be ends at the first sign that can end it. -/
theorem passes_blockCommentFrom {pos : Nat} {cs text : List Char} {after : Cursor}
    (h : blockCommentFrom pos cs = some (text, after)) :
    ¬ ['*', '/'] <:+: text ∧ Passes ⟨cs, pos⟩ (text ++ ['*', '/']) after := by
  fun_induction blockCommentFrom pos cs generalizing text with
  | case1 => cases h
  | case2 pos rest =>
    obtain ⟨rfl, rfl⟩ := Prod.mk.inj (Option.some.inj h)
    exact ⟨by simp, rfl, rfl⟩
  | case3 pos c rest hne ih =>
    obtain ⟨⟨tail, d⟩, hd, heq⟩ := Option.map_eq_some_iff.mp h
    obtain ⟨rfl, rfl⟩ := Prod.mk.inj heq
    obtain ⟨hfree, hpasses⟩ := ih hd
    refine ⟨?_, (Cursor.passes_cons c rest pos).trans hpasses⟩
    rw [List.infix_cons_iff, not_or]
    refine ⟨?_, hfree⟩
    rintro ⟨ys, hys⟩
    obtain ⟨rfl, rfl⟩ := List.cons.inj hys
    exact hne _ rfl hpasses.1

theorem blockCommentFrom_append {text : List Char} (h : ¬ ['*', '/'] <:+: text) (pos : Nat)
    (rest : List Char) : blockCommentFrom pos (text ++ '*' :: '/' :: rest) =
      some (text, ⟨rest, pos + byteLength (text ++ ['*', '/'])⟩) := by
  induction text generalizing pos with
  | nil => rfl
  | cons c text ih =>
    rw [List.infix_cons_iff, not_or] at h
    rw [List.cons_append, blockCommentFrom, ih h.2]
    · simp [byteLength, Nat.add_assoc]
    · rintro tail rfl heq
      refine h.1 ?_
      cases text with
      | nil => cases heq
      | cons y ys =>
        obtain ⟨rfl, -⟩ := List.cons.inj heq
        exact ⟨ys, rfl⟩

/-! ### Texts of gaps -/

/-- A text of blanks and comments. The flag says whether a line has ended since the last token:
some signs begin a comment only as the first ones of a line. -/
inductive GapText : Bool → List Char → Prop
  | nil {lines : Bool} : GapText lines []
  | blank {lines : Bool} {c : Char} {cs : List Char} (hc : isSpace c = true)
      (hcs : GapText (lines || isLineEnd c) cs) : GapText lines (c :: cs)
  | block {lines : Bool} {text cs : List Char} (htext : ¬ ['*', '/'] <:+: text)
      (hcs : GapText (lines || text.any isLineEnd) cs) :
      GapText lines ('/' :: '*' :: (text ++ '*' :: '/' :: cs))
  | line {lines : Bool} {s : LineCommentSign} {text cs : List Char} {c : Char}
      (hs : s ∈ lineCommentSigns) (hlines : lines = true ∨ s.startsLine = false)
      (htext : ∀ x ∈ text, isLineEnd x = false) (hc : isLineEnd c = true)
      (hcs : GapText lines (c :: cs)) : GapText lines (s.sign.toList ++ (text ++ c :: cs))

theorem isSpace_of_isLineEnd {c : Char} (h : isLineEnd c = true) : isSpace c = true := by
  simp only [isLineEnd, Bool.or_eq_true, beq_iff_eq] at h
  rcases h with ((rfl | rfl) | h) | h
  · decide
  · decide
  · simp [isSpace, Text.isBlank, h]
  · simp [isSpace, Text.isBlank, h]

/-- What may stand at the end of a line may stand behind it. -/
theorem GapText.atLineStart {lines : Bool} {cs : List Char} (h : GapText lines cs) :
    GapText true cs := by
  induction h with
  | nil => exact .nil
  | blank hc hcs ih => exact .blank hc (by simpa using ih)
  | block htext hcs ih => exact .block htext (by simpa using ih)
  | line hs hlines htext hc hcs ih => exact .line hs (.inl rfl) htext hc ih

/-- A line end and what may stand behind it. -/
theorem GapText.lineEnd {lines : Bool} {c : Char} {cs : List Char} (hc : isLineEnd c = true)
    (h : GapText true cs) : GapText lines (c :: cs) :=
  .blank (isSpace_of_isLineEnd hc) (by rw [hc, Bool.or_true]; exact h)

/-- Characters with which a gap can begin. -/
def beginsGap (c : Char) : Bool := isSpace c || ['/', '<', '-', '=', '>'].contains c

/-- How the signs of comments begin: as a gap does, but not as a block comment does. -/
theorem exists_sign {s : LineCommentSign} (hs : s ∈ lineCommentSigns) :
    ∃ x y zs, s.sign.toList = x :: y :: zs ∧ beginsGap x = true ∧ isSpace x = false ∧ x ≠ '+' ∧
      (x = '/' → y ≠ '*') ∧ (s.startsLine = false → x ≠ '=') ∧
      (s.startsToken = false → x = '/') := by
  simp only [lineCommentSigns, List.mem_cons, List.not_mem_nil, or_false] at hs
  rcases hs with rfl | rfl | rfl | rfl | rfl | rfl <;>
    exact ⟨_, _, _, rfl, by decide, by decide, by decide, by decide, by decide, by decide⟩

namespace Gap

variable {previous : Option Kind} {g g' : Gap} {n : Nat}

/-! ### What is skipped -/

@[simp] theorem add_after (g : Gap) (leads : Bool) (comment : Comment) :
    (g.add leads comment).after = g.after := by
  unfold add
  split <;> rfl

@[simp] theorem add_lineBreak (g : Gap) (leads : Bool) (comment : Comment) :
    (g.add leads comment).lineBreak = g.lineBreak := by
  unfold add
  split <;> rfl

@[simp] theorem add_tokenStart (g : Gap) (leads : Bool) (comment : Comment) :
    (g.add leads comment).tokenStart = g.tokenStart := by
  unfold add
  split <;> rfl

/-- The text of a line comment begins inside of its sign or behind it. -/
theorem exists_split_sign {s : LineCommentSign} (hs : s ∈ lineCommentSigns) :
    ∃ a b, s.sign.toList = a ++ b ∧ a.length = s.length ∧ b.all (!isLineEnd ·) = true := by
  have hsigns : ∀ s ∈ lineCommentSigns, (s.sign.toList.take s.length).length = s.length ∧
      (s.sign.toList.drop s.length).all (!isLineEnd ·) = true := by decide
  exact ⟨_, _, (List.take_append_drop s.length _).symm, hsigns s hs⟩

/-- Where a line comment ends that begins with a sign. -/
theorem span_sign {s : LineCommentSign} (hs : s ∈ lineCommentSigns) (pos : Nat)
    (rest : List Char) :
    ((Cursor.advance ⟨s.sign.toList ++ rest, pos⟩ s.length).span (!isLineEnd ·)).2 =
      (Cursor.span (!isLineEnd ·) ⟨rest, pos + byteLength s.sign.toList⟩).2 := by
  obtain ⟨a, b, hsign, hlength, hb⟩ := exists_split_sign hs
  rw [hsign, List.append_assoc, ← hlength, Cursor.advance_append, Cursor.span,
    Cursor.spanFrom_append (List.all_eq_true.mp hb), Text.byteLength_append, ← Nat.add_assoc]
  rfl

/-- The step from `g` to `g'` passes the characters `p`, which are a gap with the rest of it behind
them. They begin the token behind the gap unless a blank or a slash comes first. -/
structure Skips (g g' : Gap) (p : List Char) : Prop where
  ne_nil : p ≠ []
  passes : g.after.Passes p g'.after
  gapText : g'.after.rest ≠ [] → ∀ cs, GapText g'.lineBreak cs →
    (∀ x ∈ g'.after.rest.head?, isLineEnd x = true → cs.head? = some x) →
      GapText g.lineBreak (p ++ cs)
  start : g'.tokenStart = (g.tokenStart <|> some g.after.pos) ∨
    g'.tokenStart = g.tokenStart ∧ ∃ x ∈ p.head?, isSpace x = true ∨ x = '/'

/-- A line comment is skipped up to the end of the line. -/
theorem exists_skips_line {s : LineCommentSign} (h : g.lineCommentSign? = some s) (leads : Bool)
    (comment : Comment) :
    ∃ p, Skips g ({ g with
      after := ((g.after.advance s.length).span (!isLineEnd ·)).2
      tokenStart := g.tokenStart <|> if s.startsToken then some g.after.pos else none }.add
        leads comment) p := by
  obtain ⟨⟨rest, pos⟩, lines, leading, tokenStart⟩ := g
  have hmem := List.mem_of_find?_eq_some h
  have hfound := List.find?_some h
  simp only [Bool.and_eq_true, Bool.or_eq_true, Bool.not_eq_eq_eq_not, Bool.not_true] at hfound
  obtain ⟨tail, htail⟩ := List.isPrefixOf_iff_prefix.mp hfound.1
  obtain rfl : s.sign.toList ++ tail = rest := htail
  obtain ⟨x, y, zs, hsign, -, -, -, -, -, hslash⟩ := exists_sign hmem
  obtain ⟨hrest, hpos⟩ := Cursor.spanFrom_eq (!isLineEnd ·) (pos + byteLength s.sign.toList) tail
  obtain ⟨hall, hstop⟩ :=
    Cursor.spanFrom_stops (!isLineEnd ·) (pos + byteLength s.sign.toList) tail
  have hafter : ((Cursor.advance ⟨s.sign.toList ++ tail, pos⟩ s.length).span (!isLineEnd ·)).2 =
      (Cursor.spanFrom (!isLineEnd ·) (pos + byteLength s.sign.toList) tail).2 :=
    span_sign hmem pos tail
  generalize Cursor.spanFrom (!isLineEnd ·) (pos + byteLength s.sign.toList) tail = taken
    at hrest hpos hall hstop hafter
  refine ⟨s.sign.toList ++ taken.1, by simp [hsign], ?_, ?_, ?_⟩
  all_goals simp only [add_after, add_lineBreak, add_tokenStart, hafter]
  · refine ⟨?_, ?_⟩
    · dsimp only
      rw [List.append_assoc, ← hrest]
    · rw [hpos, Text.byteLength_append, Nat.add_assoc]
  · -- what stops the comment ends the line, unless it is the end of the text
    intro hne cs hcs hhead
    obtain ⟨x, xs, hx⟩ := List.exists_cons_of_ne_nil hne
    have hends : isLineEnd x = true := by simpa using hstop x (by rw [hx]; rfl)
    obtain ⟨ys, rfl⟩ := List.head?_eq_some_iff.mp (hhead x (by rw [hx]; rfl) hends)
    rw [List.append_assoc]
    exact .line hmem hfound.2 (fun y hy => by simpa using hall y hy) hends hcs
  · cases htoken : s.startsToken with
    | true => exact .inl rfl
    | false =>
      exact .inr ⟨by simp, x, by rw [hsign]; rfl, .inr (hslash htoken)⟩

/-- What one step does. -/
theorem exists_skips (h : g.step previous = some g') : ∃ p, Skips g g' p := by
  obtain ⟨⟨rest, pos⟩, lines, leading, tokenStart⟩ := g
  unfold step at h
  dsimp only at h
  split at h
  · cases h
  · rename_i rest
    split at h
    · obtain rfl := Option.some.inj h
      -- a comment that does not end takes the rest of the text
      have hend := Cursor.advance_append ('/' :: '*' :: rest) [] pos
      rw [List.append_nil, List.length_cons, List.length_cons] at hend
      refine ⟨'/' :: '*' :: rest, by simp, ?_, fun hrest => absurd ?_ hrest, .inr ⟨rfl, by simp⟩⟩
      · dsimp only
        rw [hend]
        exact ⟨by simp, rfl⟩
      · dsimp only
        rw [hend]
    · rename_i text after hcomment
      obtain rfl := Option.some.inj h
      obtain ⟨htext, hpasses⟩ := passes_blockCommentFrom hcomment
      refine ⟨'/' :: '*' :: (text ++ ['*', '/']), by simp, ?_, fun _ cs hcs _ => ?_,
        .inr ⟨add_tokenStart _ _ _, by simp⟩⟩
      · -- its signs are passed at once, and the text with the closing ones behind them
        have hsigns : Passes ⟨'/' :: '*' :: rest, pos⟩ ['/', '*'] ⟨rest, pos + 2⟩ := ⟨rfl, rfl⟩
        rw [add_after]
        exact hsigns.trans hpasses
      · rw [add_lineBreak] at hcs
        simpa using GapText.block htext hcs
  · rename_i c rest hne
    split at h
    · rename_i hspace
      obtain rfl := Option.some.inj h
      exact ⟨[c], by simp, ⟨rfl, rfl⟩, fun _ cs hcs _ => .blank hspace hcs,
        .inr ⟨rfl, c, rfl, .inl hspace⟩⟩
    · obtain ⟨s, hs, rfl⟩ := Option.map_eq_some_iff.mp h
      exact exists_skips_line hs _ _

theorem Skips.length_lt {p : List Char} (h : Skips g g' p) :
    g'.after.rest.length < g.after.rest.length := by
  have := List.length_pos_iff.mpr h.ne_nil
  rw [h.passes.1, List.length_append]
  omega

/-- Behind a gap stands nothing that can be skipped, when it was followed far enough. -/
theorem step_run (previous : Option Kind) (hn : g.after.rest.length < n) :
    (g.run previous n).step previous = none := by
  induction n generalizing g with
  | zero => omega
  | succ n ih =>
    rw [run]
    split
    · rename_i g' hstep
      obtain ⟨p, hp⟩ := exists_skips hstep
      have := hp.length_lt
      exact ih (by omega)
    · assumption

theorem step_of_isSpace {c : Char} {cs : List Char} (hrest : g.after.rest = c :: cs)
    (hc : isSpace c = true) : g.step previous = some { g with
      after := g.after.advance 1, lineBreak := g.lineBreak || isLineEnd c } := by
  obtain ⟨⟨rest, pos⟩, lines, leading, tokenStart⟩ := g
  obtain rfl : rest = c :: cs := hrest
  unfold step
  dsimp only
  split
  · rename_i heq
    cases heq
  · rename_i heq
    obtain ⟨rfl, -⟩ := List.cons.inj heq
    exact absurd hc (by decide)
  · rename_i heq
    obtain ⟨rfl, -⟩ := List.cons.inj heq
    rw [if_pos hc]

/-- What is skipped is a gap, unless it goes on to the end of the text. -/
theorem exists_gapText_run (previous : Option Kind) (hn : g.after.rest.length < n) :
    ∃ cs, g.after.Passes cs (g.run previous n).after ∧
      ((g.run previous n).after.rest ≠ [] → GapText g.lineBreak cs) := by
  have hstop := step_run previous hn
  induction n generalizing g with
  | zero => omega
  | succ n ih =>
    rw [run] at hstop ⊢
    split at hstop
    · rename_i g' hstep
      obtain ⟨p, hp⟩ := exists_skips hstep
      have := hp.length_lt
      obtain ⟨cs, hcs, hgapText⟩ := ih (by omega) hstop
      refine ⟨p ++ cs, hp.passes.trans hcs, fun hrest => ?_⟩
      obtain ⟨y, ys, hy⟩ := List.exists_cons_of_ne_nil hrest
      refine hp.gapText (by rw [hcs.1, hy]; simp) cs (hgapText hrest) fun x hx hends => ?_
      -- a line end is skipped, so that it cannot stand behind the gap
      cases cs with
      | nil =>
        rw [hcs.1, List.nil_append, hy] at hx
        obtain rfl := Option.some.inj hx
        rw [step_of_isSpace hy (isSpace_of_isLineEnd hends)] at hstop
        cases hstop
      | cons z zs =>
        rw [hcs.1] at hx
        exact hx
    · exact ⟨[], .refl _, fun _ => .nil⟩

theorem tokenStart_run {place : Nat} (h : g.tokenStart = some place) :
    (g.run previous n).tokenStart = some place := by
  induction n generalizing g with
  | zero => exact h
  | succ n ih =>
    rw [run]
    split
    · rename_i g' hstep
      obtain ⟨p, hp⟩ := exists_skips hstep
      refine ih ?_
      rcases hp.start with heq | ⟨heq, -⟩
      · rw [heq, h]
        rfl
      · rw [heq, h]
    · exact h

/-- From the place on at which the token behind a gap is said to begin, a part of the gap
follows. What stands in front of that place begins with a blank or a slash. -/
theorem exists_tokenStart_run (previous : Option Kind) (hn : g.after.rest.length < n)
    (hstart : g.tokenStart = none) :
    ∃ front d cs, g.after.Passes front d ∧ (∀ x ∈ front.head?, isSpace x = true ∨ x = '/') ∧
      d.pos = (g.run previous n).tokenStart.getD (g.run previous n).after.pos ∧
      d.Passes cs (g.run previous n).after ∧
      ((g.run previous n).after.rest ≠ [] → ∃ lines, GapText lines cs) := by
  induction n generalizing g with
  | zero => omega
  | succ n ih =>
    have hgap := exists_gapText_run previous hn
    rw [run] at hgap ⊢
    split at hgap
    · rename_i g' hstep
      obtain ⟨p, hp⟩ := exists_skips hstep
      have := hp.length_lt
      -- the first step that sets the start of a token sets it for good
      rcases hp.start with heq | ⟨heq, x, hx, hhead⟩
      · rw [hstart] at heq
        obtain ⟨cs, hcs, hgapText⟩ := hgap
        refine ⟨[], g.after, cs, .refl _, by simp, ?_, hcs, fun hrest => ⟨_, hgapText hrest⟩⟩
        rw [tokenStart_run heq, Option.getD_some]
      · obtain ⟨front, d, cs, hfront, -, h⟩ := ih (by omega) (heq.trans hstart)
        obtain ⟨ps, rfl⟩ := List.head?_eq_some_iff.mp hx
        exact ⟨x :: ps ++ front, d, cs, hp.passes.trans hfront, by simpa using hhead, h⟩
    · exact ⟨[], g.after, [], .refl _, by simp, by rw [hstart]; rfl, .refl _,
        fun _ => ⟨false, .nil⟩⟩

/-! ### What is skipped to its end -/

/-- A character that is no blank begins at most a comment up to the end of the line, if it does
not begin a block comment. -/
theorem step_of_ne {c : Char} {cs : List Char} (hrest : g.after.rest = c :: cs)
    (hc : isSpace c = false) (hne : ∀ ds, c :: cs ≠ '/' :: '*' :: ds) :
    g.step previous = g.lineCommentSign?.map fun s =>
      { g with
        after := ((g.after.advance s.length).span (!isLineEnd ·)).2
        tokenStart := g.tokenStart <|> if s.startsToken then some g.after.pos else none }.add
          (g.lineBreak || !previous.any Kind.keepsLineComment)
          ⟨false, ((g.after.advance s.length).span (!isLineEnd ·)).1⟩ := by
  obtain ⟨⟨rest, pos⟩, lines, leading, tokenStart⟩ := g
  obtain rfl : rest = c :: cs := hrest
  unfold step
  dsimp only
  split
  · rename_i heq
    cases heq
  · rename_i heq
    exact absurd heq (hne _)
  · rename_i heq
    obtain ⟨rfl, -⟩ := List.cons.inj heq
    rw [if_neg (by simp [hc])]

theorem step_of_beginsGap {c : Char} {cs : List Char} (hrest : g.after.rest = c :: cs)
    (hc : beginsGap c = false) : g.step previous = none := by
  have hsign : g.lineCommentSign? = none := by
    refine List.find?_eq_none.mpr fun s hs hfound => ?_
    obtain ⟨x, y, zs, hsign, hx, -⟩ := exists_sign hs
    obtain ⟨tail, htail⟩ := List.isPrefixOf_iff_prefix.mp (Bool.and_eq_true _ _ ▸ hfound).1
    rw [hsign, hrest] at htail
    obtain ⟨rfl, -⟩ := List.cons.inj htail
    rw [hx] at hc
    cases hc
  rw [beginsGap, Bool.or_eq_false_iff] at hc
  rw [step_of_ne hrest hc.1, hsign]
  · rfl
  · rintro ds heq
    obtain ⟨rfl, -⟩ := List.cons.inj heq
    exact absurd hc.2 (by decide)

theorem run_of_beginsGap {c : Char} {cs : List Char} (hrest : g.after.rest = c :: cs)
    (hc : beginsGap c = false) : g.run previous n = g := by
  cases n with
  | zero => rfl
  | succ n => rw [run, step_of_beginsGap hrest hc]

theorem step_block (previous : Option Kind) {text rest : List Char} {pos : Nat}
    (hrest : g.after = ⟨'/' :: '*' :: (text ++ '*' :: '/' :: rest), pos⟩)
    (htext : ¬ ['*', '/'] <:+: text) : ∃ g', g.step previous = some g' ∧
      g'.after = ⟨rest, pos + byteLength ('/' :: '*' :: (text ++ ['*', '/']))⟩ ∧
      g'.lineBreak = (g.lineBreak || text.any isLineEnd) := by
  obtain ⟨after, lines, leading, tokenStart⟩ := g
  obtain rfl : after = _ := hrest
  unfold step
  dsimp only
  split
  · rename_i heq
    cases heq
  · rename_i heq
    obtain rfl := (List.cons.inj (List.cons.inj heq).2).2
    rw [blockCommentFrom_append htext]
    refine ⟨_, rfl, ?_, add_lineBreak _ _ _⟩
    have hsigns : byteLength ('/' :: '*' :: (text ++ ['*', '/'])) =
        2 + byteLength (text ++ ['*', '/']) := by
      rw [show '/' :: '*' :: (text ++ ['*', '/']) = ['/', '*'] ++ (text ++ ['*', '/']) from rfl,
        Text.byteLength_append]
      rfl
    rw [add_after, hsigns, ← Nat.add_assoc]
  · rename_i hne heq
    obtain ⟨rfl, rfl⟩ := List.cons.inj heq
    exact absurd rfl (hne _ rfl)

/-- At a sign with which a comment can begin here it begins. -/
theorem lineCommentSign?_append {s : LineCommentSign} (hs : s ∈ lineCommentSigns)
    (hlines : g.lineBreak = true ∨ s.startsLine = false) {rest : List Char}
    (hrest : g.after.rest = s.sign.toList ++ rest) : g.lineCommentSign? = some s := by
  obtain ⟨⟨cs, pos⟩, lines, leading, tokenStart⟩ := g
  obtain rfl : cs = _ := hrest
  change lines = true ∨ _ at hlines
  simp only [lineCommentSigns, List.mem_cons, List.not_mem_nil, or_false] at hs
  cases lines
  · obtain hlines := hlines.resolve_left (by decide)
    rcases hs with rfl | rfl | rfl | rfl | rfl | rfl
    · rfl
    · rfl
    all_goals cases hlines
  · rcases hs with rfl | rfl | rfl | rfl | rfl | rfl
    all_goals rfl

theorem step_line (previous : Option Kind) {s : LineCommentSign} {text rest : List Char}
    {c : Char} {pos : Nat} (hrest : g.after = ⟨s.sign.toList ++ (text ++ c :: rest), pos⟩)
    (hs : s ∈ lineCommentSigns) (hlines : g.lineBreak = true ∨ s.startsLine = false)
    (htext : ∀ x ∈ text, isLineEnd x = false) (hc : isLineEnd c = true) :
    ∃ g', g.step previous = some g' ∧
      g'.after = ⟨c :: rest, pos + byteLength (s.sign.toList ++ text)⟩ ∧
      g'.lineBreak = g.lineBreak := by
  have hsign := lineCommentSign?_append hs hlines (congrArg Cursor.rest hrest)
  have hspan : ((g.after.advance s.length).span (!isLineEnd ·)).2 =
      ⟨c :: rest, pos + byteLength (s.sign.toList ++ text)⟩ := by
    have hall : ∀ x ∈ text, (!isLineEnd x) = true := fun x hx => by rw [htext x hx]; rfl
    rw [hrest, span_sign hs, Cursor.span_append hall (by simp [hc]), Text.byteLength_append,
      Nat.add_assoc]
  obtain ⟨x, y, zs, hx, -, hspace, -, hne, -⟩ := exists_sign hs
  have hcons : g.after.rest = x :: (y :: zs ++ (text ++ c :: rest)) := by
    rw [hrest, hx]
    rfl
  -- no sign of a line comment begins a block comment or is blank
  refine ⟨_, (step_of_ne hcons hspace ?_).trans (by rw [hsign]; rfl), ?_, ?_⟩
  · rintro ds heq
    obtain ⟨rfl, htail⟩ := List.cons.inj heq
    obtain ⟨rfl, -⟩ := List.cons.inj htail
    exact hne rfl rfl
  · rw [add_after]
    exact hspan
  · rw [add_lineBreak]

/-- A gap in front of what cannot begin one is skipped to its end. -/
theorem run_append {cs rest : List Char} {x : Char} {lines : Bool} (hcs : GapText lines cs)
    (hx : beginsGap x = false) (hlines : g.lineBreak = lines) {pos : Nat}
    (hafter : g.after = ⟨cs ++ x :: rest, pos⟩) (hn : cs.length < n) :
    (g.run previous n).after = ⟨x :: rest, pos + byteLength cs⟩ := by
  -- along the gap: each part of it is one step
  induction hcs generalizing g n pos with
  | nil =>
    rw [run_of_beginsGap (congrArg Cursor.rest hafter) hx]
    exact hafter
  | @blank lines c cs hc hcs ih =>
    obtain ⟨n, rfl⟩ := Nat.exists_eq_succ_of_ne_zero (Nat.ne_zero_of_lt hn)
    rw [run, step_of_isSpace (congrArg Cursor.rest hafter) hc]
    refine (ih (by rw [← hlines]) (by rw [hafter]; rfl) (Nat.lt_of_succ_lt_succ hn)).trans ?_
    rw [byteLength, ← Nat.add_assoc]
  | @block lines text cs htext hcs ih =>
    obtain ⟨n, rfl⟩ := Nat.exists_eq_succ_of_ne_zero (Nat.ne_zero_of_lt hn)
    have hafter : g.after = ⟨'/' :: '*' :: (text ++ '*' :: '/' :: (cs ++ x :: rest)), pos⟩ := by
      simpa using hafter
    obtain ⟨g', hstep, hafter', hlines'⟩ := step_block previous hafter htext
    rw [run, hstep]
    simp only [List.length_cons, List.length_append] at hn
    refine (ih (by rw [hlines', hlines]) hafter' (by omega)).trans ?_
    simp [Text.byteLength_append, byteLength]
    omega
  | @line lines s text cs c hs hcan htext hc hcs ih =>
    obtain ⟨n, rfl⟩ := Nat.exists_eq_succ_of_ne_zero (Nat.ne_zero_of_lt hn)
    have hafter : g.after = ⟨s.sign.toList ++ (text ++ c :: (cs ++ x :: rest)), pos⟩ := by
      simpa using hafter
    obtain ⟨g', hstep, hafter', hlines'⟩ :=
      step_line previous hafter hs (hlines ▸ hcan) htext hc
    obtain ⟨y, z, zs, hsign, -⟩ := exists_sign hs
    simp only [hsign, List.length_cons, List.length_append] at hn
    rw [run, hstep]
    refine (ih (by rw [hlines', hlines]) hafter' ?_).trans ?_
    · simp only [List.length_cons]
      omega
    · simp [Text.byteLength_append, byteLength]
      omega

end Gap

end Phrasebook.Script
